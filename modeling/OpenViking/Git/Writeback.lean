import OpenViking.Git.Restore

/-!
# The write-back of a restore

The concurrent writes, the concurrent deletes and the pruning of empty
directories, each described by what it leaves on disk.
-/

namespace OpenViking
namespace Git

open Paths WorkTree List OpenViking.Task

/-!
# The concurrent writes
-/

/-- Directories stay directories, and files stay files. -/
def Persists (w w' : WorkTree) : Prop :=
  forall q, (w.IsDir q -> w'.IsDir q) ∧
    ((w.fileAt q).isSome -> (w'.fileAt q).isSome)

theorem Persists.refl (w : WorkTree) : Persists w w :=
  fun _ => ⟨id, id⟩

variable {w : WorkTree}

theorem Persists.trans {w₁ w₂ : WorkTree} (h : Persists w w₁)
    (h' : Persists w₁ w₂) : Persists w w₂ :=
  fun q => ⟨fun hq => (h' q).1 ((h q).1 hq), fun hq => (h' q).2 ((h q).2 hq)⟩

variable {p : Path}

variable {now : Int} {w' : WorkTree}

theorem persists_mkdir (h : w.mkdir now p = .ok w') : Persists w w' := by
  rcases mkdir_inv h with ⟨hmiss, _, hnode⟩
  intro q
  by_cases hq : q = p
  · subst hq
    refine ⟨fun hdir => absurd hmiss (not_missing_of_isDir hdir), ?_⟩
    rw [fileAt_of_missing hmiss]
    intro hsome
    cases hsome
  · have hsame := hnode q
    rw [if_neg hq] at hsame
    rw [isDir_congr hsame, fileAt_congr hsame]
    exact ⟨id, id⟩

theorem persists_write {data : Bytes} (h : w.write now p data = .ok w') :
    Persists w w' := by
  rcases write_inv h with ⟨hnot, _, hnode⟩
  intro q
  by_cases hq : q = p
  · subst hq
    refine ⟨fun hdir => absurd hdir hnot, fun _ => ?_⟩
    have hself := hnode q
    rw [if_pos rfl] at hself
    rw [fileAt_eq_some_iff.mpr ⟨now, hself⟩]
    rfl
  · have hsame := hnode q
    rw [if_neg hq] at hsame
    rw [isDir_congr hsame, fileAt_congr hsame]
    exact ⟨id, id⟩

/-- A file can be written at the path of `w` without removing anything. -/
def HasRoom (w : WorkTree) (p : Path) : Prop :=
  ¬ w.IsDir p ∧ forall d, Below d p -> w.fileAt d = none

theorem HasRoom.ne_nil (h : HasRoom w p) : p ≠ [] := by
  rintro rfl
  exact h.1 w.isDir_nil

variable {w₀ : WorkTree}

theorem hasRoom_of_write {data : Bytes} (hpersists : Persists w₀ w)
    (h : w.write now p data = .ok w') : HasRoom w₀ p := by
  rcases write_inv h with ⟨hnot, hdirs, _⟩
  refine ⟨fun hdir => hnot ((hpersists p).1 hdir), ?_⟩
  intro d hd
  cases hfile : w₀.fileAt d with
  | none => rfl
  | some data =>
    have hsome := (hpersists d).2 (by rw [hfile]; rfl)
    rw [fileAt_of_isDir (hdirs d hd)] at hsome
    cases hsome

/-- The calls that a write task has left end in its write. -/
def WriteAhead (t : FileTask) : Prop :=
  exists (dirs : List Path) (data : Bytes),
    t.todo = dirs.map .mkdir ++ [.write t.tag data]

/-- What is known of a write task without knowing what is on disk. -/
def WriteTried (w₀ : WorkTree) (t : FileTask) : Prop :=
  WriteAhead t ∨ (t.todo = [] ∧ (t.failed = none -> HasRoom w₀ t.tag))

theorem step_writeTried {t : FileTask}
    (hpersists : Persists w₀ w) (h : WriteTried w₀ t) :
    Persists w₀ (step (execCall now) w t).1 ∧
      WriteTried w₀ (step (execCall now) w t).2 := by
  unfold step
  rcases h with ⟨dirs, data, htodo⟩ | ⟨htodo, hroom⟩
  · rw [htodo]
    cases dirs with
    | nil =>
      simp only [map_nil, nil_append, execCall]
      cases hrun : w.write now t.tag data with
      | error e =>
        refine ⟨hpersists, .inr ⟨rfl, ?_⟩⟩
        intro hnone
        cases hnone
      | ok w' =>
        exact ⟨hpersists.trans (persists_write hrun),
          .inr ⟨rfl, fun _ => hasRoom_of_write hpersists hrun⟩⟩
    | cons d dirs =>
      simp only [map_cons, cons_append, execCall]
      cases hrun : w.mkdir now d with
      | ok w' =>
        exact ⟨hpersists.trans (persists_mkdir hrun), .inl ⟨dirs, data, rfl⟩⟩
      | error e =>
        cases e with
        | alreadyExists q => exact ⟨hpersists, .inl ⟨dirs, data, rfl⟩⟩
        | _ =>
          exact ⟨hpersists, .inr ⟨rfl, fun hnone => by cases hnone⟩⟩
  · rw [htodo]
    exact ⟨hpersists, .inr ⟨htodo, hroom⟩⟩

theorem failures_nil_iff {tasks : List FileTask} :
    failures tasks = [] <-> forall t, t ∈ tasks -> t.failed = none := by
  unfold failures
  rw [filterMap_eq_nil_iff]
  constructor
  · intro h t ht
    simpa using h t ht
  · intro h t ht
    simp [h t ht]

/-- Every write that succeeds had room before the write-back. -/
theorem hasRoom_of_writes (now : Int) (schedule : List Nat) (w₀ : WorkTree)
    (items : List (Path × BlobId))
    (h : failures (runAll (execCall now) schedule w₀
      (items.map fun b => writeTask b.1 b.2)).2 = []) :
    forall b, b ∈ items -> HasRoom w₀ b.1 := by
  intro b hb
  have hstart : forall t,
      t ∈ (items.map fun b => writeTask b.1 b.2) -> WriteTried w₀ t := by
    intro t ht
    rcases mem_map.mp ht with ⟨c, _, rfl⟩
    exact .inl ⟨parentDirs c.1, c.2.bytes, rfl⟩
  have hinv := runAll_inv (execCall now) (Persists w₀)
    (fun _ => WriteTried w₀)
    (fun w t hw ht => ⟨(step_writeTried hw ht).1, (step_writeTried hw ht).2,
      fun _ hu => hu⟩) schedule (Persists.refl w₀) hstart
  rcases exists_done (execCall now) schedule w₀
    (fun b => writeTask b.1 b.2) hb with ⟨t, ht, heq, hdone⟩
  change t.tag = b.1 at heq
  rcases hinv.2 t ht with ⟨dirs, data, htodo⟩ | ⟨_, hroom⟩
  · rw [hdone] at htodo
    simp at htodo
  · rw [← heq]
    exact hroom (failures_nil_iff.mp h t ht)

/-- A set of files, each of which can be written to `w`. -/
structure Writable (w : WorkTree) (items : List (Path × BlobId)) : Prop where
  unique : forall {p o o'}, (p, o) ∈ items -> (p, o') ∈ items -> o = o'
  flat : forall {p q o o'}, (p, o) ∈ items -> (q, o') ∈ items -> ¬ Below p q
  room : forall {p o}, (p, o) ∈ items -> HasRoom w p

structure Grown (w₀ : WorkTree) (items : List (Path × BlobId))
    (w : WorkTree) : Prop where
  newDirs : forall {q}, w.IsDir q -> w₀.IsDir q ∨
    exists p o, (p, o) ∈ items ∧ Below q p
  files : forall q, w.fileAt q = w₀.fileAt q ∨
    exists o, (q, o) ∈ items ∧ w.fileAt q = some o.bytes

/-- A write task on its way, or done. -/
def WriteOk (items : List (Path × BlobId)) (w : WorkTree) (t : FileTask) :
    Prop :=
  t.failed = none ∧ exists oid, (t.tag, oid) ∈ items ∧
    ((exists done rest, t.tag.dropLast = done ++ rest ∧ w.IsDir done ∧
        t.todo = (dirsFrom done rest).map .mkdir ++
          [.write t.tag oid.bytes]) ∨
      (t.todo = [] ∧ w.fileAt t.tag = some oid.bytes))

section Writes

variable {w₀ w : WorkTree} {items : List (Path × BlobId)}

/-- What the other write tasks rely on. -/
def KeepsItems (items : List (Path × BlobId)) (w w' : WorkTree) : Prop :=
  (forall q, w.IsDir q -> w'.IsDir q) ∧
    forall q o, (q, o) ∈ items -> w.fileAt q = some o.bytes ->
      w'.fileAt q = some o.bytes

theorem WriteOk.keep {w' : WorkTree} {t : FileTask}
    (h : WriteOk items w t) (hkeep : KeepsItems items w w') :
    WriteOk items w' t := by
  rcases h with ⟨hfailed, oid, hmem, hrest⟩
  refine ⟨hfailed, oid, hmem, ?_⟩
  rcases hrest with ⟨done, rest, hsplit, hdir, htodo⟩ | ⟨htodo, hfile⟩
  · exact .inl ⟨done, rest, hsplit, hkeep.1 done hdir, htodo⟩
  · exact .inr ⟨htodo, hkeep.2 _ _ hmem hfile⟩

variable {oid : BlobId}

theorem Grown.not_file (hset : Writable w₀ items) (h : Grown w₀ items w)
    {p d : Path} (hmem : (p, oid) ∈ items) (hd : Below d p) :
    w.fileAt d = none := by
  rcases h.files d with hsame | ⟨o, ho, _⟩
  · rw [hsame]
    exact (hset.room hmem).2 d hd
  · exact absurd hd (hset.flat ho hmem)

theorem Grown.not_dir (hset : Writable w₀ items) (h : Grown w₀ items w)
    (hmem : (p, oid) ∈ items) : ¬ w.IsDir p := by
  intro hdir
  rcases h.newDirs hdir with hold | ⟨q, o, hq, hb⟩
  · exact (hset.room hmem).1 hold
  · exact hset.flat hmem hq hb

/-- One directory on the way to an item. -/
theorem grown_mkdir (now : Int) (hset : Writable w₀ items) (h : Grown w₀ items w)
    {p done : Path} {name : Name} (hmem : (p, oid) ∈ items)
    (hbelow : Below (done ++ [name]) p) (hdone : w.IsDir done) :
    exists w', execCall now w (.mkdir (done ++ [name])) =
        .ok w' ∧
      Grown w₀ items w' ∧ KeepsItems items w w' ∧
        w'.IsDir (done ++ [name]) := by
  by_cases hmiss : w.Missing (done ++ [name])
  · rcases mkdir_missing now hmiss (by simpa using hdone) with
      ⟨w', hrun⟩
    rcases mkdir_inv hrun with ⟨_, _, hnode⟩
    have hself : w'.IsDir (done ++ [name]) := ⟨now, by rw [hnode, if_pos rfl]⟩
    have hfile : forall q, w'.fileAt q = w.fileAt q := by
      intro q
      by_cases hq : q = done ++ [name]
      · subst hq
        rw [fileAt_of_isDir hself, fileAt_of_missing hmiss]
      · exact fileAt_congr (by rw [hnode, if_neg hq])
    refine ⟨w', by rw [execCall, hrun], ⟨?_, ?_⟩, ⟨?_, ?_⟩, hself⟩
    · intro q hq
      by_cases hqd : q = done ++ [name]
      · exact .inr ⟨p, oid, hmem, by rwa [hqd]⟩
      · rw [isDir_congr (w := w) (by rw [hnode, if_neg hqd])] at hq
        exact h.newDirs hq
    · intro q
      rw [hfile]
      exact h.files q
    · exact fun q hq => (persists_mkdir hrun q).1 hq
    · intro q o _ hq
      rw [hfile, hq]
  · have hdir : w.IsDir (done ++ [name]) := by
      rcases w.node?_cases (done ++ [name]) with ⟨data, hdata⟩ | hdir | hm
      · rw [h.not_file hset hmem hbelow] at hdata
        cases hdata
      · exact hdir
      · exact absurd hm hmiss
    refine ⟨w, ?_, h, ⟨fun _ => id, fun _ _ _ => id⟩, hdir⟩
    rw [execCall, mkdir_existing now hmiss]

/-- Writing an item. -/
theorem grown_write (now : Int) (hset : Writable w₀ items) (h : Grown w₀ items w)
    (hmem : (p, oid) ∈ items)
    (hdir : w.IsDir p.dropLast) :
    exists w', execCall now w (.write p oid.bytes) = .ok w' ∧
      Grown w₀ items w' ∧ KeepsItems items w w' ∧
        w'.fileAt p = some oid.bytes := by
  have hnot := h.not_dir hset hmem
  rcases write_ok now oid.bytes hnot hdir with ⟨w', hrun⟩
  rcases write_inv hrun with ⟨_, _, hnode⟩
  have hself : w'.fileAt p = some oid.bytes :=
    fileAt_eq_some_iff.mpr ⟨now, by rw [hnode, if_pos rfl]⟩
  have hother : forall q, q ≠ p -> w'.node? q = w.node? q := by
    intro q hq
    rw [hnode, if_neg hq]
  refine ⟨w', by rw [execCall, hrun], ⟨?_, ?_⟩, ⟨?_, ?_⟩, hself⟩
  · intro q hq
    by_cases hqp : q = p
    · subst hqp
      exact absurd hq (not_isDir_of_fileAt hself)
    · exact h.newDirs ((isDir_congr (hother q hqp)).mp hq)
  · intro q
    by_cases hqp : q = p
    · subst hqp
      exact .inr ⟨oid, hmem, hself⟩
    · rw [fileAt_congr (hother q hqp)]
      exact h.files q
  · exact fun q hq => (persists_write hrun q).1 hq
  · intro q o ho hq
    by_cases hqp : q = p
    · subst hqp
      rw [hself, hset.unique hmem ho]
    · rw [fileAt_congr (hother q hqp), hq]

theorem step_writeOk (now : Int) (hset : Writable w₀ items) (h : Grown w₀ items w)
    {t : FileTask} (ht : WriteOk items w t) :
    Grown w₀ items (step (execCall now) w t).1 ∧
      WriteOk items (step (execCall now) w t).1
        (step (execCall now) w t).2 ∧
      KeepsItems items w (step (execCall now) w t).1 := by
  rcases ht with ⟨hfailed, oid, hmem, hrest⟩
  unfold step
  rcases hrest with ⟨done, rest, hsplit, hdir, htodo⟩ | ⟨htodo, hfile⟩
  · rw [htodo]
    cases rest with
    | nil =>
      rw [append_nil] at hsplit
      rcases grown_write now hset h hmem (hsplit ▸ hdir) with
        ⟨w', hrun, hgrown, hkeep, hfile⟩
      simp only [dirsFrom, map_nil, nil_append, hrun]
      exact ⟨hgrown, ⟨hfailed, oid, hmem, .inr ⟨rfl, hfile⟩⟩, hkeep⟩
    | cons name rest =>
      have hbelow : Below (done ++ [name]) t.tag := by
        apply below_of_mem_dirsFrom (hset.room hmem).ne_nil hsplit
        rw [dirsFrom]
        exact mem_cons_self
      rcases grown_mkdir now hset h hmem hbelow hdir with
        ⟨w', hrun, hgrown, hkeep, hdir'⟩
      simp only [dirsFrom, map_cons, cons_append, hrun]
      exact ⟨hgrown, ⟨hfailed, oid, hmem, .inl ⟨done ++ [name], rest,
        by simpa using hsplit, hdir', rfl⟩⟩, hkeep⟩
  · rw [htodo]
    exact ⟨h, ⟨hfailed, oid, hmem, .inr ⟨htodo, hfile⟩⟩,
      fun _ => id, fun _ _ _ => id⟩

end Writes

/-- Writable items all reach the disk, and nothing else changes. -/
theorem runAll_writes (now : Int) (schedule : List Nat)
    {items : List (Path × BlobId)} (hset : Writable w₀ items) :
    failures (runAll (execCall now) schedule w₀
        (items.map fun b => writeTask b.1 b.2)).2 = [] ∧
      (forall p oid, (p, oid) ∈ items ->
        (runAll (execCall now) schedule w₀
          (items.map fun b => writeTask b.1 b.2)).1.fileAt p =
            some oid.bytes) ∧
      forall q, (forall oid, (q, oid) ∉ items) ->
        (runAll (execCall now) schedule w₀
          (items.map fun b => writeTask b.1 b.2)).1.fileAt q =
            w₀.fileAt q := by
  have hstart : forall t,
      t ∈ (items.map fun b => writeTask b.1 b.2) -> WriteOk items w₀ t := by
    intro t ht
    rcases mem_map.mp ht with ⟨b, hb, rfl⟩
    exact ⟨rfl, b.2, hb, .inl ⟨[], b.1.dropLast, rfl, w₀.isDir_nil, rfl⟩⟩
  have hinv := runAll_inv (execCall now) (Grown w₀ items) (WriteOk items)
    (fun w t hw ht =>
      have hstep := step_writeOk now hset hw ht
      ⟨hstep.1, hstep.2.1, fun _ hu => hu.keep hstep.2.2⟩)
    schedule ⟨.inl, fun _ => .inl rfl⟩ hstart
  refine ⟨failures_nil_iff.mpr fun t ht => (hinv.2 t ht).1, ?_, ?_⟩
  · intro p oid hmem
    rcases exists_done (execCall now) schedule w₀
      (fun b => writeTask b.1 b.2) hmem with ⟨t, ht, heq, hdone⟩
    change t.tag = p at heq
    subst heq
    rcases hinv.2 t ht with ⟨_, oid', hmem', ⟨_, _, _, _, htodo⟩ | ⟨_, hfile⟩⟩
    · rw [hdone] at htodo
      simp at htodo
    · rw [hfile, hset.unique hmem hmem']
  · intro q hq
    rcases hinv.1.files q with hsame | ⟨oid, hmem, _⟩
    · exact hsame
    · exact absurd hmem (hq oid)

/-!
# The concurrent deletes
-/

def Shrunk (w₀ : WorkTree) (paths : List Path) (w : WorkTree) : Prop :=
  forall q, w.node? q = w₀.node? q ∨ (q ∈ paths ∧ w.Missing q)

def DeleteOk (paths : List Path) (w : WorkTree) (t : FileTask) : Prop :=
  t.failed = none ∧ t.tag ∈ paths ∧
    (t.todo = [.remove t.tag] ∨ (t.todo = [] ∧ w.Missing t.tag))

theorem step_deleteOk (now : Int) {paths : List Path}
    (hfiles : forall p, p ∈ paths -> (w₀.fileAt p).isSome)
    (h : Shrunk w₀ paths w) {t : FileTask} (ht : DeleteOk paths w t) :
    Shrunk w₀ paths (step (execCall now) w t).1 ∧
      DeleteOk paths (step (execCall now) w t).1
        (step (execCall now) w t).2 ∧
      forall q, w.Missing q -> (step (execCall now) w t).1.Missing q := by
  rcases ht with ⟨hfailed, hmem, htodo | ⟨htodo, hmiss⟩⟩
  · unfold step
    rw [htodo]
    simp only [execCall]
    rcases h t.tag with hsame | ⟨_, hmiss⟩
    · rcases Option.isSome_iff_exists.mp (hfiles t.tag hmem) with
        ⟨data, hdata⟩
      rw [← fileAt_congr hsame] at hdata
      rcases remove_file hdata with ⟨w', hrun⟩
      have hnode := (remove_inv hrun).2
      have hself : w'.Missing t.tag := by
        rw [WorkTree.Missing, hnode, if_pos rfl]
      rw [hrun]
      refine ⟨?_, ⟨hfailed, hmem, .inr ⟨rfl, hself⟩⟩, ?_⟩
      · intro q
        by_cases hq : q = t.tag
        · subst hq
          exact .inr ⟨hmem, hself⟩
        · rw [WorkTree.Missing, hnode, if_neg hq]
          exact h q
      · intro q hq
        rw [WorkTree.Missing, hnode]
        split
        · rfl
        · exact hq
    · rw [remove_missing hmiss]
      exact ⟨h, ⟨hfailed, hmem, .inr ⟨rfl, hmiss⟩⟩, fun _ => id⟩
  · unfold step
    rw [htodo]
    exact ⟨h, ⟨hfailed, hmem, .inr ⟨htodo, hmiss⟩⟩, fun _ => id⟩

/-- Files that are on disk are all removed, and nothing else changes. -/
theorem runAll_deletes (now : Int) (schedule : List Nat) {paths : List Path}
    (hfiles : forall p, p ∈ paths -> (w₀.fileAt p).isSome) :
    failures (runAll (execCall now) schedule w₀
        (paths.map deleteTask)).2 = [] ∧
      (forall p, p ∈ paths ->
        (runAll (execCall now) schedule w₀
          (paths.map deleteTask)).1.fileAt p = none) ∧
      forall q, q ∉ paths ->
        (runAll (execCall now) schedule w₀
          (paths.map deleteTask)).1.fileAt q = w₀.fileAt q := by
  have hstart : forall t, t ∈ paths.map deleteTask -> DeleteOk paths w₀ t := by
    intro t ht
    rcases mem_map.mp ht with ⟨p, hp, rfl⟩
    exact ⟨rfl, hp, .inl rfl⟩
  have hinv := runAll_inv (execCall now) (Shrunk w₀ paths) (DeleteOk paths)
    (fun w t hw ht =>
      have hstep := step_deleteOk now hfiles hw ht
      ⟨hstep.1, hstep.2.1, fun _ hu =>
        ⟨hu.1, hu.2.1, hu.2.2.imp id fun h => ⟨h.1, hstep.2.2 _ h.2⟩⟩⟩)
    schedule (fun _ => .inl rfl) hstart
  refine ⟨failures_nil_iff.mpr fun t ht => (hinv.2 t ht).1, ?_, ?_⟩
  · intro p hp
    rcases exists_done (execCall now) schedule w₀
      deleteTask hp with ⟨t, ht, heq, hdone⟩
    change t.tag = p at heq
    subst heq
    rcases (hinv.2 t ht).2.2 with htodo | ⟨_, hmiss⟩
    · rw [hdone] at htodo
      cases htodo
    · exact fileAt_of_missing hmiss
  · intro q hq
    rcases hinv.1 q with hsame | ⟨hmem, _⟩
    · exact fileAt_congr hsame
    · exact absurd hmem hq

/-!
# Pruning
-/

theorem fileAt_pruneDir (w : WorkTree) (dir q : Path) :
    (pruneDir w dir).fileAt q = w.fileAt q := by
  unfold pruneDir
  split
  · rename_i hread
    cases hrun : w.remove dir with
    | error e => rfl
    | ok w' =>
      have hdir : w.IsDir dir := by
        unfold readDir at hread
        split at hread
        · cases hread
        · cases hread
        · rename_i hnode
          exact ⟨_, hnode⟩
      rcases remove_inv hrun with ⟨_, hnode⟩
      change w'.fileAt q = w.fileAt q
      by_cases hq : q = dir
      · subst hq
        rw [fileAt_of_isDir hdir]
        apply fileAt_of_missing
        rw [WorkTree.Missing, hnode, if_pos rfl]
      · exact fileAt_congr (by rw [hnode, if_neg hq])
  · rfl

theorem fileAt_pruneDirs (dirs : List Path) (w : WorkTree) (q : Path) :
    (dirs.foldl pruneDir w).fileAt q = w.fileAt q := by
  induction dirs generalizing w with
  | nil => rfl
  | cons dir rest ih =>
    rw [foldl_cons, ih, fileAt_pruneDir]

end Git
end OpenViking
