import OpenViking.Refs.LocalRefStore

/-!
# The files of one ref

A call touches the directories above its ref, the temporary file and the ref
file.  Refs whose names are independent do not meet in these paths.
-/

namespace OpenViking
namespace Refs

open Paths List

section Names

variable (root : Path)

/--
The temporary files of the two refs differ, and neither file of the first ref
is a directory above the second one.
-/
structure Apart (r s : Str) : Prop where
  tmp : tmpPath (refPath root r) ≠ tmpPath (refPath root s)
  tmpAbove : ¬ Below (tmpPath (refPath root r)) (refPath root s)
  refAbove : endsInDot r = false -> ¬ Below (refPath root r) (refPath root s)

theorem Apart.tmp_ne_ref {root : Path} {r s : Str} (h : Apart root r s) :
    tmpPath (refPath root r) ≠ refPath root s := by
  intro heq
  apply h.tmp
  rw [← heq, tmpPath_tmpPath]

theorem Apart.ref_ne_tmp {root : Path} {r s : Str} (h : Apart root r s) :
    refPath root r ≠ tmpPath (refPath root s) := by
  intro heq
  apply h.tmp
  rw [heq, tmpPath_tmpPath]

theorem Apart.ref_ne_ref {root : Path} {r s : Str} (h : Apart root r s) :
    refPath root r ≠ refPath root s := by
  intro heq
  apply h.tmp
  rw [heq]

/-- The paths that only calls on the ref write. -/
def OwnPath (r : Str) (p : Path) : Prop :=
  p = tmpPath (refPath root r) ∨ (endsInDot r = false ∧ p = refPath root r)

/-- What a call on the ref may change. -/
def Frame (r : Str) (files files' : Files) : Prop :=
  forall p, files'.find p = files.find p ∨
    (p ∈ parentDirs (refPath root r) ∧ files.find p = none ∧
      files'.find p = some .dir) ∨
    OwnPath root r p

/-- The files around a ref are as the store itself leaves them. -/
structure RefOk (files : Files) (r : Str) : Prop where
  parents : forall d, d ∈ parentDirs (refPath root r) ->
    files.find d = none ∨ files.find d = some .dir
  tmp : files.find (tmpPath (refPath root r)) ≠ some .dir
  target : endsInDot r = false -> files.find (refPath root r) = none ∨
    exists oid, files.find (refPath root r) =
      some (.file (refContent oid)) ∧
        forall d, d ∈ parentDirs (refPath root r) ->
          files.find d = some .dir

/-- The value of a ref. -/
def valueOf (files : Files) (r : Str) : Option ObjectId :=
  match files.find (refPath root r) with
  | some (.file content) => ObjectId.parse (trim content)
  | _ => none

end Names

section Frame

variable {root : Path} {files files' : Files} {r s : Str}

theorem Frame.refl (root : Path) (r : Str) (files : Files) :
    Frame root r files files :=
  fun _ => .inl rfl

section

variable (h : Frame root s files files')

include h

theorem Frame.find_eq {p : Path}
    (hdir : ¬ Below p (refPath root s)) (hown : ¬ OwnPath root s p) :
    files'.find p = files.find p := by
  rcases h p with hsame | ⟨hmem, _⟩ | hp
  · exact hsame
  · exact absurd (mem_parentDirs.mp hmem).2 hdir
  · exact absurd hp hown

theorem Frame.find_tmp (hrs : Apart root r s) :
    files'.find (tmpPath (refPath root r)) =
      files.find (tmpPath (refPath root r)) := by
  apply h.find_eq hrs.tmpAbove
  rintro (heq | ⟨_, heq⟩)
  · exact hrs.tmp heq
  · exact hrs.tmp_ne_ref heq

theorem Frame.find_ref (hrs : Apart root r s) (hdot : endsInDot r = false) :
    files'.find (refPath root r) = files.find (refPath root r) := by
  apply h.find_eq (hrs.refAbove hdot)
  rintro (heq | ⟨_, heq⟩)
  · exact hrs.ref_ne_tmp heq
  · exact hrs.ref_ne_ref heq

theorem Frame.find_parent (hsr : Apart root s r) {d : Path}
    (hd : d ∈ parentDirs (refPath root r)) :
    files'.find d = files.find d ∨
      (files.find d = none ∧ files'.find d = some .dir) := by
  rcases h d with hsame | ⟨_, hnone, hdir⟩ | hown
  · exact .inl hsame
  · exact .inr ⟨hnone, hdir⟩
  · have hbelow := (mem_parentDirs.mp hd).2
    rcases hown with rfl | ⟨hdot, rfl⟩
    · exact absurd hbelow hsr.tmpAbove
    · exact absurd hbelow (hsr.refAbove hdot)

theorem Frame.parent_dir (hsr : Apart root s r) {d : Path}
    (hd : d ∈ parentDirs (refPath root r))
    (hdir : files.find d = some .dir) :
    files'.find d = some .dir := by
  rcases h.find_parent hsr hd with hsame | ⟨_, hnew⟩
  · rw [hsame, hdir]
  · exact hnew

theorem Frame.valueOf_eq (hrs : Apart root r s) (hdot : endsInDot r = false) :
    valueOf root files' r = valueOf root files r := by
  unfold valueOf
  rw [h.find_ref hrs hdot]

theorem Frame.refOk (hrs : Apart root r s)
    (hsr : Apart root s r) (hr : RefOk root files r) :
    RefOk root files' r where
  parents := by
    intro d hd
    rcases h.find_parent hsr hd with hsame | ⟨_, hnew⟩
    · rw [hsame]
      exact hr.parents d hd
    · exact .inr hnew
  tmp := by
    rw [h.find_tmp hrs]
    exact hr.tmp
  target := by
    intro hdot
    rw [h.find_ref hrs hdot]
    rcases hr.target hdot with hnone | ⟨oid, hfile, hdirs⟩
    · exact .inl hnone
    · exact .inr ⟨oid, hfile, fun d hd =>
        h.parent_dir hsr hd (hdirs d hd)⟩

end

end Frame

/-!
# The file calls on these paths
-/

section Calls

variable {files : Files}

variable {ds : List Path}

theorem checkDirs_ok (h : forall d, d ∈ ds -> files.find d = some .dir) :
    files.checkDirs ds = .ok () := by
  induction ds with
  | nil => rfl
  | cons d rest ih =>
    rw [Files.checkDirs, h d mem_cons_self]
    exact ih fun e he => h e (mem_cons_of_mem _ he)

theorem checkDirs_cases (h : forall d, d ∈ ds -> files.find d = none ∨
      files.find d = some .dir) :
    files.checkDirs ds = .ok () ∨
      files.checkDirs ds = .error .notFound := by
  induction ds with
  | nil => exact .inl rfl
  | cons d rest ih =>
    rw [Files.checkDirs]
    rcases h d mem_cons_self with hnone | hdir
    · rw [hnone]
      exact .inr rfl
    · rw [hdir]
      exact ih fun e he => h e (mem_cons_of_mem _ he)

theorem createDirs_ok (h : forall d, d ∈ ds -> files.find d = none ∨
      files.find d = some .dir) :
    exists files', files.createDirs ds = .ok files' ∧
      (forall d, d ∈ ds -> files'.find d = some .dir) ∧
      forall p, files'.find p = files.find p ∨
        (p ∈ ds ∧ files.find p = none ∧
          files'.find p = some .dir) := by
  induction ds generalizing files with
  | nil => exact ⟨files, rfl, by simp, fun _ => .inl rfl⟩
  | cons d rest ih =>
    have hrest := fun e he => h e (mem_cons_of_mem d he)
    rcases h d mem_cons_self with hnone | hdir
    · have hput : forall e, e ∈ rest -> (files.put d .dir).find e = none ∨
            (files.put d .dir).find e = some .dir := by
        intro e he
        rw [Assoc.find_put]
        split
        · exact .inr rfl
        · exact hrest e he
      rcases ih hput with ⟨files', hrun, hdirs, hsame⟩
      have hd : files'.find d = some .dir := by
        rcases hsame d with heq | ⟨_, _, hnew⟩
        · rw [heq, Assoc.find_put_self]
        · exact hnew
      refine ⟨files', by rw [Files.createDirs, hnone]; exact hrun, ?_, ?_⟩
      · intro e he
        rcases mem_cons.mp he with rfl | he
        · exact hd
        · exact hdirs e he
      intro p
      by_cases hp : p = d
      · subst hp
        exact .inr ⟨mem_cons_self, hnone, hd⟩
      · rcases hsame p with heq | ⟨hmem, hold, hnew⟩
        · rw [heq, Assoc.find_put_ne _ _ hp]
          exact .inl rfl
        · rw [Assoc.find_put_ne _ _ hp] at hold
          exact .inr ⟨mem_cons_of_mem _ hmem, hold, hnew⟩
    · rcases ih hrest with ⟨files', hrun, hdirs, hsame⟩
      refine ⟨files', by rw [Files.createDirs, hdir]; exact hrun, ?_, ?_⟩
      · intro e he
        rcases mem_cons.mp he with rfl | he
        · rcases hsame e with heq | ⟨_, _, hnew⟩
          · rw [heq, hdir]
          · exact hnew
        · exact hdirs e he
      · intro p
        rcases hsame p with heq | ⟨hmem, hold⟩
        · exact .inl heq
        · exact .inr ⟨mem_cons_of_mem _ hmem, hold⟩

theorem write_ok {p : Path} (content : Str)
    (hdirs : forall d, d ∈ parentDirs p -> files.find d = some .dir)
    (hp : files.find p ≠ some .dir) :
    files.write p content =
      .ok (files.put p (.file content)) := by
  unfold Files.write
  simp only [checkDirs_ok hdirs, bind, Except.bind]

end Calls

theorem readRefOpt_eq {root : Path} {files : Files} {r : Str}
    (h : RefOk root files r) (hdot : endsInDot r = false) :
    readRefOpt files (refPath root r) (endsInDot r) =
      .ok (valueOf root files r) := by
  unfold readRefOpt Files.readToString valueOf
  rw [hdot]
  rcases h.target hdot with hnone | ⟨oid, hfile, hdirs⟩
  · rcases checkDirs_cases h.parents with hok | hmiss
    · simp [hok, hnone, bind, Except.bind]
    · simp [hmiss, hnone, bind, Except.bind]
  · simp [checkDirs_ok hdirs, hfile, bind, Except.bind, parse_trim_refContent]

theorem readRefOpt_dot (files : Files) (p : Path) (oid : ObjectId) :
    readRefOpt files p true ≠ .ok (some oid) := by
  have hread : forall content, files.readToString p true ≠ .ok content := by
    intro content h
    unfold Files.readToString at h
    cases hcheck : files.checkDirs (parentDirs p) with
    | error e =>
      rw [hcheck] at h
      cases h
    | ok u =>
      simp only [hcheck, bind, Except.bind] at h
      split at h <;> cases h
  intro h
  unfold readRefOpt at h
  split at h
  · rename_i content hcontent
    exact hread content hcontent
  · cases h
  · cases h

end Refs
end OpenViking
