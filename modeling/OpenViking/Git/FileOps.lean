import OpenViking.Git.WorkTree

/-!
# Changing the working tree

The file system calls that write.  `now` is the clock reading that a call
stamps on the entry it creates or rewrites.
-/

namespace OpenViking
namespace Git

open Paths Assoc

namespace WorkTree

/-!
# Single entries
-/

/-- Store a node whose parents are directories and that has nothing below. -/
def insertNode (w : WorkTree) (p : Path) (node : Node) (hp : p ≠ [])
    (hparents : forall d, Below d p -> w.IsDir d)
    (hbelow : forall q, Below p q -> w.Missing q) : WorkTree where
  nodes := w.nodes.put p node
  rootless := by
    rw [find_put_ne _ _ (Ne.symm hp)]
    exact w.rootless
  closed := by
    intro d q hq hd hdnil
    have hqnil : q ≠ [] := by
      rintro rfl
      exact hdnil (List.prefix_nil.mp hd.isPrefix)
    by_cases hqp : q = p
    · subst hqp
      rcases hparents d hd with ⟨modTime, hdir⟩
      refine ⟨modTime, ?_⟩
      rw [find_put_ne _ _ hd.ne]
      simpa [node?, hdnil] using hdir
    · rw [find_put_ne _ _ hqp] at hq
      have hdp : d ≠ p := by
        rintro rfl
        have hmiss := hbelow q hd
        simp [Missing, node?, hqnil] at hmiss
        simp [hmiss] at hq
      rw [find_put_ne _ _ hdp]
      exact w.closed hq hd hdnil

def eraseNode (w : WorkTree) (p : Path)
    (hbelow : forall q, Below p q -> w.Missing q) : WorkTree where
  nodes := w.nodes.del p
  rootless := by
    rw [find_del]
    split
    · rfl
    · exact w.rootless
  closed := by
    intro d q hq hd hdnil
    have hqnil : q ≠ [] := by
      rintro rfl
      exact hdnil (List.prefix_nil.mp hd.isPrefix)
    have hqp : q ≠ p := by
      rintro rfl
      simp at hq
    rw [find_del_ne _ hqp] at hq
    have hdp : d ≠ p := by
      rintro rfl
      have hmiss := hbelow q hd
      simp [Missing, node?, hqnil] at hmiss
      simp [hmiss] at hq
    rw [find_del_ne _ hdp]
    exact w.closed hq hd hdnil

variable {w : WorkTree} {p : Path}

theorem node?_insertNode {node : Node}
    (hp : p ≠ []) (hparents : forall d, Below d p -> w.IsDir d)
    (hbelow : forall q, Below p q -> w.Missing q) (q : Path) :
    (w.insertNode p node hp hparents hbelow).node? q =
      if q = p then some node else w.node? q := by
  unfold node? insertNode
  by_cases hq : q = []
  · subst hq
    simp [Ne.symm hp]
  · simp [hq, find_put]

theorem node?_eraseNode (hp : p ≠ [])
    (hbelow : forall q, Below p q -> w.Missing q) (q : Path) :
    (w.eraseNode p hbelow).node? q =
      if q = p then none else w.node? q := by
  unfold node? eraseNode
  by_cases hq : q = []
  · subst hq
    simp [Ne.symm hp]
  · simp [hq, find_del]

theorem isDir_of_parent
    (h : w.IsDir p.dropLast) {d : Path} (hd : Below d p) : w.IsDir d := by
  rcases List.eq_nil_or_concat' p with rfl | ⟨dirs, name, rfl⟩
  · exact absurd (List.prefix_nil.mp hd.isPrefix) hd.ne
  · rw [List.dropLast_concat] at h
    rcases prefix_iff_eq_or_below.mp (below_append_singleton_iff.mp hd) with
      rfl | hb
    · exact h
    · exact isDir_of_below (not_missing_of_isDir h) hb

/-!
# File system calls
-/

/-- The error of a call that needs the parent of `p` to be a directory. -/
def parentError (w : WorkTree) (p : Path) : FsError :=
  if w.Missing p.dropLast then .notFound p.dropLast
  else .notADirectory p.dropLast

theorem ne_nil_of_node?_none
    (h : w.node? p = none) : p ≠ [] :=
  ne_nil_of_missing h

theorem missing_below_missing
    (h : w.node? p = none) : forall q, Below p q -> w.Missing q :=
  fun _ hq => missing_below (fun hdir => not_missing_of_isDir hdir h) hq

variable {data : Bytes}

variable {modTime : Int}

section

variable (h : w.node? p = some (.file data modTime))

include h

theorem missing_below_file : forall q, Below p q -> w.Missing q := by
  intro q hq
  apply missing_below _ hq
  rintro ⟨t, ht⟩
  rw [h] at ht
  cases ht

theorem file_ne_nil : p ≠ [] := by
  rintro rfl
  simp [node?] at h

theorem isDir_above_file : forall d, Below d p -> w.IsDir d := by
  intro d hd
  apply isDir_of_below _ hd
  simp [Missing, h]

end

variable (now : Int)

def mkdir (w : WorkTree) (p : Path) : Except FsError WorkTree :=
  match h : w.node? p with
  | some _ => .error (.alreadyExists p)
  | none =>
    if hdir : w.IsDir p.dropLast then
      .ok (w.insertNode p (.dir now) (ne_nil_of_node?_none h)
        (fun _ => isDir_of_parent hdir) (missing_below_missing h))
    else
      .error (w.parentError p)

/-- `write` with the `Create` flag. -/
def write (w : WorkTree) (p : Path) (data : Bytes) :
    Except FsError WorkTree :=
  match h : w.node? p with
  | some (.dir _) => .error (.isADirectory p)
  | some (.file _ _) =>
    .ok (w.insertNode p (.file data now) (file_ne_nil h)
      (isDir_above_file h) (missing_below_file h))
  | none =>
    if hdir : w.IsDir p.dropLast then
      .ok (w.insertNode p (.file data now)
        (ne_nil_of_node?_none h) (fun _ => isDir_of_parent hdir)
        (missing_below_missing h))
    else
      .error (w.parentError p)

/-- The paths directly in a directory. -/
def readDir (w : WorkTree) (p : Path) : Except FsError (List Path) :=
  match w.node? p with
  | none => .error (.notFound p)
  | some (.file _ _) => .error (.notADirectory p)
  | some (.dir _) =>
    .ok (w.nodes.keys.filter fun q => decide (q.dropLast = p ∧ q ≠ []))

theorem missing_below_of_no_key
    (h : (w.nodes.keys.any fun q => decide (Below p q)) = false) :
    forall q, Below p q -> w.Missing q := by
  intro q hq
  have hqnil : q ≠ [] := by
    rintro rfl
    exact hq.ne (List.prefix_nil.mp hq.isPrefix)
  by_contra hmiss
  have hmem : q ∈ w.nodes.keys := by
    apply AList.mem_keys.mp
    apply AList.lookup_isSome.mp
    change (w.nodes.find q).isSome
    rw [Option.isSome_iff_ne_none]
    simpa [Missing, node?, hqnil] using hmiss
  have := List.any_eq_false.mp h q hmem
  exact this (by simpa using hq)

/-- Remove a file or an empty directory. -/
def remove (w : WorkTree) (p : Path) : Except FsError WorkTree :=
  match h : w.node? p with
  | none => .error (.notFound p)
  | some (.file _ _) => .ok (w.eraseNode p (missing_below_file h))
  | some (.dir _) =>
    match hkeys : w.nodes.keys.any fun q => decide (Below p q) with
    | true => .error (.directoryNotEmpty p)
    | false =>
      if p = [] then
        .error (.isADirectory p)
      else
        .ok (w.eraseNode p (missing_below_of_no_key hkeys))

def ensureDirs (now : Int) (w : WorkTree) :
    (done todo : Path) -> Except FsError WorkTree
  | _, [] => .ok w
  | done, name :: rest =>
    match w.mkdir now (done ++ [name]) with
    | .ok w => ensureDirs now w (done ++ [name]) rest
    | .error (.alreadyExists _) =>
      ensureDirs now w (done ++ [name]) rest
    | .error e => .error e

/-- Create the missing directories above a path. -/
def ensureParentDirs (w : WorkTree) (p : Path) :
    Except FsError WorkTree :=
  ensureDirs now w [] p.dropLast

/-!
# What the calls do
-/

variable {w' : WorkTree}

theorem mkdir_inv {now : Int} {w : WorkTree} (h : w.mkdir now p = .ok w') :
    w.Missing p ∧ w.IsDir p.dropLast ∧
      forall q, w'.node? q = if q = p then some (.dir now)
        else w.node? q := by
  unfold mkdir at h
  split at h
  · cases h
  · rename_i hmiss
    split at h
    · rename_i hdir
      cases h
      exact ⟨hmiss, hdir, node?_insertNode _ _ _⟩
    · cases h

theorem mkdir_missing (hmiss : w.Missing p) (hdir : w.IsDir p.dropLast) :
    exists w', w.mkdir now p = .ok w' := by
  unfold mkdir
  split
  · rename_i hnode
    rw [hmiss] at hnode
    cases hnode
  · exact ⟨_, dif_pos hdir⟩

theorem mkdir_existing (h : ¬ w.Missing p) :
    w.mkdir now p = .error (.alreadyExists p) := by
  unfold mkdir
  split
  · rfl
  · rename_i hmiss
    exact absurd hmiss h

theorem write_inv {now : Int} {w : WorkTree}
    (h : w.write now p data = .ok w') :
    ¬ w.IsDir p ∧ (forall d, Below d p -> w.IsDir d) ∧
      forall q, w'.node? q = if q = p then some (.file data now)
        else w.node? q := by
  unfold write at h
  split at h
  · cases h
  · rename_i hfile
    cases h
    refine ⟨?_, isDir_above_file hfile, node?_insertNode _ _ _⟩
    rintro ⟨t, hdir⟩
    rw [hfile] at hdir
    cases hdir
  · rename_i hmiss
    split at h
    · rename_i hdir
      cases h
      exact ⟨fun hp => not_missing_of_isDir hp hmiss,
        fun _ => isDir_of_parent hdir, node?_insertNode _ _ _⟩
    · cases h

theorem write_ok (data : Bytes) (hnot : ¬ w.IsDir p) (hdir : w.IsDir p.dropLast) :
    exists w', w.write now p data = .ok w' := by
  unfold write
  split
  · rename_i hnode
    exact absurd ⟨_, hnode⟩ hnot
  · exact ⟨_, rfl⟩
  · exact ⟨_, dif_pos hdir⟩

theorem remove_inv {w : WorkTree} (h : w.remove p = .ok w') :
    ¬ w.Missing p ∧ forall q, w'.node? q = if q = p then none
      else w.node? q := by
  unfold remove at h
  split at h
  · cases h
  · rename_i hfile
    cases h
    exact ⟨by simp [Missing, hfile], node?_eraseNode (file_ne_nil hfile) _⟩
  · rename_i hdir
    split at h
    · cases h
    · split at h
      · cases h
      · rename_i hp
        cases h
        exact ⟨by simp [Missing, hdir], node?_eraseNode hp _⟩

theorem remove_file
    (h : w.fileAt p = some data) :
    exists w', w.remove p = .ok w' := by
  rcases fileAt_eq_some_iff.mp h with ⟨t, hnode⟩
  unfold remove
  split
  · rename_i hmiss
    rw [hnode] at hmiss
    cases hmiss
  · exact ⟨_, rfl⟩
  · rename_i hdir
    rw [hnode] at hdir
    cases hdir

theorem remove_missing (h : w.Missing p) :
    w.remove p = .error (.notFound p) := by
  unfold remove
  split
  · rfl
  · rename_i hnode
    rw [h] at hnode
    cases hnode
  · rename_i hnode
    rw [h] at hnode
    cases hnode

theorem fileAt_congr {w : WorkTree} {q : Path}
    (h : w'.node? q = w.node? q) : w'.fileAt q = w.fileAt q := by
  unfold fileAt
  rw [h]

theorem isDir_congr {w : WorkTree} {q : Path}
    (h : w'.node? q = w.node? q) : w'.IsDir q <-> w.IsDir q := by
  unfold IsDir
  rw [h]

end WorkTree
end Git
end OpenViking
