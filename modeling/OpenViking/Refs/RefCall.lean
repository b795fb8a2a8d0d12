import OpenViking.Refs.RefFiles

/-!
# One call against its own ref

What a call knows about its ref at each stage, and what each of its steps does
to the value of the ref.
-/

namespace OpenViking
namespace Refs

open Paths Assoc

/-- What a call knows about its ref while it holds the lock. -/
def StageOk (root : Path) (files : Files) (call : UpdateCall) :
    Stage -> Prop
  | .start => True
  | .locked => True
  | .read actual => endsInDot call.refName = false ->
      valueOf root files call.refName = actual
  | .compared => endsInDot call.refName = false ->
      valueOf root files call.refName = call.expected
  | .dirsMade =>
    (endsInDot call.refName = false ->
      valueOf root files call.refName = call.expected) ∧
    forall d, d ∈ parentDirs (refPath root call.refName) ->
      files.find d = some .dir
  | .tmpWritten =>
    (endsInDot call.refName = false ->
      tmpPath (refPath root call.refName) ≠ refPath root call.refName ->
        valueOf root files call.refName = call.expected) ∧
    (forall d, d ∈ parentDirs (refPath root call.refName) ->
      files.find d = some .dir) ∧
    files.find (tmpPath (refPath root call.refName)) =
      some (.file (refContent call.new))
  | .done result => endsInDot call.refName = false ->
      result = .ok () ∨ exists actual, actual ≠ call.expected ∧
        result = .error (.conflict call.expected actual)

/--
The call has stored its id and returns `Ok`, or will return it: a temporary
file that is the ref file itself is in place before its rename.
-/
def Committed (root : Path) (call : UpdateCall) (stage : Stage) : Prop :=
  stage = .done (.ok ()) ∨
    (stage = .tmpWritten ∧
      tmpPath (refPath root call.refName) = refPath root call.refName)

/-- A step of the call keeps the value of its ref, or is its commit. -/
def ValueStep (root : Path) (files files' : Files) (call : UpdateCall)
    (stage' : Stage) : Prop :=
  valueOf root files' call.refName = valueOf root files call.refName ∨
    (valueOf root files call.refName = call.expected ∧
      valueOf root files' call.refName = some call.new ∧
      Committed root call stage')

section Step

variable {root : Path} {files : Files} {call : UpdateCall}

theorem StageOk.frame {files' : Files} {s : Str} {stage : Stage}
    (h : StageOk root files call stage) (hframe : Frame root s files files')
    (hrs : Apart root call.refName s) (hsr : Apart root s call.refName) :
    StageOk root files' call stage := by
  cases stage with
  | start => trivial
  | locked => trivial
  | read actual =>
    intro hdot
    rw [hframe.valueOf_eq hrs hdot]
    exact h hdot
  | compared =>
    intro hdot
    rw [hframe.valueOf_eq hrs hdot]
    exact h hdot
  | dirsMade =>
    refine ⟨?_, fun d hd => hframe.parent_dir hsr hd (h.2 d hd)⟩
    intro hdot
    rw [hframe.valueOf_eq hrs hdot]
    exact h.1 hdot
  | tmpWritten =>
    refine ⟨?_, fun d hd => hframe.parent_dir hsr hd (h.2.1 d hd), ?_⟩
    · intro hdot hne
      rw [hframe.valueOf_eq hrs hdot]
      exact h.1 hdot hne
    · rw [hframe.find_tmp hrs]
      exact h.2.2
  | done result => exact h

theorem valueOf_of_file {content : ObjectId} {r : Str}
    (h : files.find (refPath root r) =
      some (.file (refContent content))) :
    valueOf root files r = some content := by
  unfold valueOf
  rw [h]
  exact parse_trim_refContent content

section

variable (hr : RefOk root files call.refName)

include hr

private theorem keep_files {stage' : Stage} (h : StageOk root files call stage') :
    Frame root call.refName files files ∧ RefOk root files call.refName ∧
      StageOk root files call stage' ∧
      (endsInDot call.refName = false ->
        ValueStep root files files call stage') :=
  ⟨Frame.refl root call.refName files, hr, h, fun _ => .inl rfl⟩

/-- Creating the directories above the ref. -/
private theorem compared_step (h : StageOk root files call .compared) :
    exists files', callStep root files call .compared =
        (files', .dirsMade) ∧
      Frame root call.refName files files' ∧
      RefOk root files' call.refName ∧
      StageOk root files' call .dirsMade ∧
      (endsInDot call.refName = false ->
        valueOf root files' call.refName =
          valueOf root files call.refName) := by
  rcases createDirs_ok hr.parents with ⟨files', hrun, hdirs, hsame⟩
  have hkeep : forall p, ¬ Below p (refPath root call.refName) ->
      files'.find p = files.find p := by
    intro p hp
    rcases hsame p with heq | ⟨hmem, _⟩
    · exact heq
    · exact absurd (mem_parentDirs.mp hmem).2 hp
  have htmp : ¬ Below (tmpPath (refPath root call.refName))
      (refPath root call.refName) := by
    intro hb
    have hmem : tmpPath (refPath root call.refName) ∈
        parentDirs (tmpPath (refPath root call.refName)) := by
      rw [parentDirs_tmpPath]
      refine mem_parentDirs.mpr ⟨?_, hb⟩
      intro hnil
      rcases List.eq_nil_or_concat' (refPath root call.refName) with
        h | ⟨dirs, n, h⟩
      · rw [h] at hb
        exact hb.ne (List.prefix_nil.mp hb.isPrefix)
      · rw [h, tmpPath_append_singleton] at hnil
        simp at hnil
    exact not_below_self _ (mem_parentDirs.mp hmem).2
  have hvalue : valueOf root files' call.refName =
      valueOf root files call.refName := by
    unfold valueOf
    rw [hkeep _ (not_below_self _)]
  refine ⟨files', ?_, ?_, ⟨fun d hd => .inr (hdirs d hd), ?_, ?_⟩,
    ⟨fun hdot => hvalue.trans (h hdot), hdirs⟩, fun _ => hvalue⟩
  · simp only [callStep, hrun]
  · intro p
    rcases hsame p with heq | hnew
    · exact .inl heq
    · exact .inr (.inl hnew)
  · rw [hkeep _ htmp]
    exact hr.tmp
  · intro hdot
    rw [hkeep _ (not_below_self _)]
    rcases hr.target hdot with hnone | ⟨oid, hfile, _⟩
    · exact .inl hnone
    · exact .inr ⟨oid, hfile, hdirs⟩

/-- Writing the temporary file. -/
private theorem dirsMade_step (h : StageOk root files call .dirsMade) :
    exists files', callStep root files call .dirsMade =
        (files', .tmpWritten) ∧
      Frame root call.refName files files' ∧
      RefOk root files' call.refName ∧
      StageOk root files' call .tmpWritten ∧
      (endsInDot call.refName = false ->
        ValueStep root files files' call .tmpWritten) := by
  have hdirs : forall d, d ∈ parentDirs (tmpPath (refPath root call.refName)) ->
        files.find d = some .dir := by
    rw [parentDirs_tmpPath]
    exact h.2
  have hwrite := write_ok (refContent call.new) hdirs hr.tmp
  have hother : forall p, p ≠ tmpPath (refPath root call.refName) ->
      (files.put (tmpPath (refPath root call.refName))
        (.file (refContent call.new))).find p = files.find p :=
    fun p hp => find_put_ne _ _ hp
  have hparent : forall d, d ∈ parentDirs (refPath root call.refName) ->
      d ≠ tmpPath (refPath root call.refName) := by
    rintro d hd rfl
    exact hr.tmp (h.2 _ hd)
  have hdirs' : forall d, d ∈ parentDirs (refPath root call.refName) ->
      (files.put (tmpPath (refPath root call.refName))
        (.file (refContent call.new))).find d = some .dir := by
    intro d hd
    rw [hother d (hparent d hd)]
    exact h.2 d hd
  refine ⟨_, by simp only [callStep, hwrite], ?_,
    ⟨fun d hd => .inr (hdirs' d hd), by simp, ?_⟩,
    ⟨?_, hdirs', find_put_self _ _ _⟩, ?_⟩
  · intro p
    by_cases hp : p = tmpPath (refPath root call.refName)
    · exact .inr (.inr (.inl hp))
    · exact .inl (hother p hp)
  · intro hdot
    by_cases hp : refPath root call.refName = tmpPath (refPath root call.refName)
    · have hself : (files.put (tmpPath (refPath root call.refName))
          (.file (refContent call.new))).find (refPath root call.refName) =
              some (.file (refContent call.new)) := by
        rw [find_put, if_pos hp]
      exact .inr ⟨call.new, hself, hdirs'⟩
    · rw [hother _ hp]
      rcases hr.target hdot with hnone | ⟨oid, hfile, _⟩
      · exact .inl hnone
      · exact .inr ⟨oid, hfile, hdirs'⟩
  · intro hdot hne
    have hsame : valueOf root (files.put (tmpPath (refPath root call.refName))
        (.file (refContent call.new))) call.refName =
          valueOf root files call.refName := by
      unfold valueOf
      rw [hother _ (Ne.symm hne)]
    rw [hsame]
    exact h.1 hdot
  · intro hdot
    by_cases hp : tmpPath (refPath root call.refName) = refPath root call.refName
    · refine .inr ⟨h.1 hdot, ?_, .inr ⟨rfl, hp⟩⟩
      apply valueOf_of_file
      rw [hp, find_put_self]
    · refine .inl ?_
      unfold valueOf
      rw [hother _ (Ne.symm hp)]

/-- Renaming the temporary file over the ref file. -/
theorem tmpWritten_step (h : StageOk root files call .tmpWritten)
    (hdot : endsInDot call.refName = false) :
    exists files', callStep root files call .tmpWritten =
        (files', .done (.ok ())) ∧
      Frame root call.refName files files' ∧
      RefOk root files' call.refName ∧
      ValueStep root files files' call (.done (.ok ())) := by
  rcases h with ⟨hvalue, hdirs, htmp⟩
  have hcheck : files.checkDirs
      (parentDirs (tmpPath (refPath root call.refName))) = .ok () := by
    rw [parentDirs_tmpPath]
    exact checkDirs_ok hdirs
  by_cases hp : tmpPath (refPath root call.refName) = refPath root call.refName
  · refine ⟨files, ?_, Frame.refl _ _ _, hr, .inl rfl⟩
    simp [callStep, Files.rename, checkDirs_ok hdirs, bind, Except.bind, hp]
    rw [← hp, htmp]
    simp [hdot]
  have htarget : files.find (refPath root call.refName) ≠ some .dir := by
    rcases hr.target hdot with hnone | ⟨oid, hfile, _⟩
    · rw [hnone]
      simp
    · rw [hfile]
      simp
  have hrename : files.rename (tmpPath (refPath root call.refName))
      (refPath root call.refName) (endsInDot call.refName) =
        .ok ((files.del (tmpPath (refPath root call.refName))).put
          (refPath root call.refName)
          (.file (refContent call.new))) := by
    unfold Files.rename
    simp only [hcheck, checkDirs_ok hdirs, bind, Except.bind, htmp, hdot,
      Bool.false_eq_true, if_false, if_neg hp]
  have hself : ((files.del (tmpPath (refPath root call.refName))).put
      (refPath root call.refName)
      (.file (refContent call.new))).find (refPath root call.refName) =
          some (.file (refContent call.new)) :=
    find_put_self _ _ _
  have hother : forall p, p ≠ tmpPath (refPath root call.refName) ->
      p ≠ refPath root call.refName ->
        ((files.del (tmpPath (refPath root call.refName))).put
          (refPath root call.refName)
          (.file (refContent call.new))).find p = files.find p := by
    intro p hptmp hpref
    rw [find_put_ne _ _ hpref, find_del_ne _ hptmp]
  have hdirs' : forall d, d ∈ parentDirs (refPath root call.refName) ->
      ((files.del (tmpPath (refPath root call.refName))).put
        (refPath root call.refName)
        (.file (refContent call.new))).find d = some .dir := by
    intro d hd
    rw [hother d]
    · exact hdirs d hd
    · rintro rfl
      exact hr.tmp (hdirs _ hd)
    · rintro rfl
      exact htarget (hdirs _ hd)
  refine ⟨_, by simp only [callStep, hrename], ?_,
    ⟨fun d hd => .inr (hdirs' d hd), ?_, ?_⟩, ?_⟩
  · intro p
    by_cases hptmp : p = tmpPath (refPath root call.refName)
    · exact .inr (.inr (.inl hptmp))
    · by_cases hpref : p = refPath root call.refName
      · exact .inr (.inr (.inr ⟨hdot, hpref⟩))
      · exact .inl (hother p hptmp hpref)
  · rw [find_put_ne _ _ hp, find_del_self]
    simp
  · exact fun _ => .inr ⟨call.new, hself, hdirs'⟩
  · exact .inr ⟨hvalue hdot hp, valueOf_of_file hself, .inl rfl⟩

end

private theorem tmpWritten_step_dot
    (hdot : endsInDot call.refName = true) :
    exists e, callStep root files call .tmpWritten =
      (files, .done (.error e)) := by
  have hrename : exists e, files.rename (tmpPath (refPath root call.refName))
      (refPath root call.refName) true = .error e := by
    unfold Files.rename
    cases files.checkDirs (parentDirs (tmpPath (refPath root call.refName))) with
    | error e => exact ⟨e, rfl⟩
    | ok u =>
      cases files.checkDirs (parentDirs (refPath root call.refName)) with
      | error e => exact ⟨e, rfl⟩
      | ok u' =>
        simp only [bind, Except.bind]
        split
        · exact ⟨_, rfl⟩
        · simp only [if_true]
          split <;> exact ⟨_, rfl⟩
  rcases hrename with ⟨e, he⟩
  exact ⟨.io e, by simp only [callStep, hdot, he]⟩

/-- Every step of a call, seen from its own ref. -/
theorem callStep_ok (stage : Stage) (hr : RefOk root files call.refName)
    (h : StageOk root files call stage) :
    Frame root call.refName files (callStep root files call stage).1 ∧
      RefOk root (callStep root files call stage).1 call.refName ∧
      StageOk root (callStep root files call stage).1 call
        (callStep root files call stage).2 ∧
      (endsInDot call.refName = false ->
        ValueStep root files (callStep root files call stage).1 call
          (callStep root files call stage).2) := by
  cases stage with
  | start => exact keep_files hr h
  | done result => exact keep_files hr h
  | locked =>
    by_cases hdot : endsInDot call.refName = false
    · have hrun : callStep root files call .locked =
          (files, .read (valueOf root files call.refName)) := by
        simp only [callStep, readRefOpt_eq hr hdot]
      rw [hrun]
      exact keep_files hr fun _ => rfl
    · simp only [callStep]
      split
      · exact keep_files hr fun hfalse => absurd hfalse hdot
      · exact keep_files hr fun hfalse => absurd hfalse hdot
  | read actual =>
    simp only [callStep]
    split
    · rename_i heq
      exact keep_files hr fun hdot => (h hdot).trans heq
    · rename_i hne
      exact keep_files hr fun _ => .inr ⟨actual, hne, rfl⟩
  | compared =>
    rcases compared_step hr h with
      ⟨files', hrun, hframe, hr', hstage, hvalue⟩
    rw [hrun]
    exact ⟨hframe, hr', hstage, fun hdot => .inl (hvalue hdot)⟩
  | dirsMade =>
    rcases dirsMade_step hr h with
      ⟨files', hrun, hframe, hr', hstage, hvalue⟩
    rw [hrun]
    exact ⟨hframe, hr', hstage, hvalue⟩
  | tmpWritten =>
    by_cases hdot : endsInDot call.refName = false
    · rcases tmpWritten_step hr h hdot with
        ⟨files', hrun, hframe, hr', hvalue⟩
      rw [hrun]
      exact ⟨hframe, hr', fun _ => .inl rfl, fun _ => hvalue⟩
    · rcases tmpWritten_step_dot (by simpa using hdot) with ⟨e, hrun⟩
      rw [hrun]
      exact keep_files hr fun hfalse => absurd hfalse hdot

end Step

end Refs
end OpenViking
