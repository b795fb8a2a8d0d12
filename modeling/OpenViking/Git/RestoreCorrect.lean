import OpenViking.Git.FullCommit
import OpenViking.Git.Writeback

/-!
# Restore reproduces the source

The tree of the new commit is a splice of the source into the head, and the
write-back brings the working tree to it when there is room for every file.
-/

namespace OpenViking
namespace Git

open Paths WorkTree List Git.Tree

/-!
# The diff as a comparison of maps
-/

theorem find_ofList_flatten {t : Tree} (h : t.WellFormed) (p : Path) :
    (Assoc.ofList t.flatten).find p = t.blobAt p := by
  have hfun : forall q oid oid', (q, oid) ∈ t.flatten ->
      (q, oid') ∈ t.flatten -> oid = oid' := by
    intro q oid oid' hoid hoid'
    rw [mem_flatten h] at hoid hoid'
    rw [hoid] at hoid'
    exact Option.some.inj hoid'
  apply Option.ext
  intro oid
  rw [Assoc.find_ofList hfun, mem_flatten h]

section Diff

variable {s h : Tree} (hs : s.WellFormed) (hh : h.WellFormed)

include hs hh

theorem mem_toWrite {p : Path} {oid : BlobId} :
    (p, oid) ∈ (computeSubtreeDiff s.flatten h.flatten).toWrite <->
      s.blobAt p = some oid ∧ h.blobAt p ≠ some oid := by
  unfold computeSubtreeDiff
  rw [mem_insertionSort, mem_filter, find_ofList_flatten hh,
    mem_flatten hs]
  simp

theorem mem_toDelete {p : Path} :
    p ∈ (computeSubtreeDiff s.flatten h.flatten).toDelete <->
      (exists oid, h.blobAt p = some oid) ∧ s.blobAt p = none := by
  unfold computeSubtreeDiff
  rw [mem_insertionSort, mem_filter, find_ofList_flatten hs,
    ← paths, mem_paths hh, Option.isNone_iff_eq_none]

theorem blobAt_eq_of_diff_nil
    (hwrite : (computeSubtreeDiff s.flatten h.flatten).toWrite = [])
    (hdelete : (computeSubtreeDiff s.flatten h.flatten).toDelete = [])
    (p : Path) : s.blobAt p = h.blobAt p := by
  cases hsource : s.blobAt p with
  | some oid =>
    by_contra hne
    have hmem := (mem_toWrite hs hh).mpr ⟨hsource, Ne.symm hne⟩
    rw [hwrite] at hmem
    cases hmem
  | none =>
    cases hhead : h.blobAt p with
    | none => rfl
    | some oid =>
      have hmem := (mem_toDelete hs hh).mpr ⟨⟨oid, hhead⟩, hsource⟩
      rw [hdelete] at hmem
      cases hmem

end Diff

/-!
# The compared subtrees
-/

variable (projectDir : Option Path)

/-- The directory that a restore replaces. -/
def restoredDir : Path :=
  projectDir.getD []

theorem blobAt_append_of_no_tree {t : Tree} {p q : Path} (hp : p ≠ [])
    (hq : q ≠ [])
    (h : forall sub, t.get? p ≠ some (.tree (some sub))) :
    t.blobAt (p ++ q) = none := by
  unfold blobAt
  rw [get?_append hp hq]
  cases hget : t.get? p with
  | none => rfl
  | some entry =>
    cases entry with
    | blob oid => rfl
    | tree oid =>
      cases oid with
      | none => rfl
      | some sub => exact absurd hget (h sub)

theorem restoreSubtrees_ok {projectDir : Option Path}
    {source head : CommitId} {s h : Tree}
    (hsource : source.tree.WellFormed) (hhead : head.tree.WellFormed)
    (hrun : restoreSubtrees projectDir source head = .ok (s, h)) :
    s.WellFormed ∧ h.WellFormed ∧
      (forall dir, projectDir = some dir ->
        source.tree.get? dir = some (.tree (some s))) ∧
      (forall r, source.tree.blobAt (restoredDir projectDir ++ r) =
        s.blobAt r) ∧
      forall r, r ≠ [] ->
        head.tree.blobAt (restoredDir projectDir ++ r) = h.blobAt r := by
  cases projectDir with
  | none =>
    cases hrun
    exact ⟨hsource, hhead, by simp, fun _ => rfl, fun _ _ => rfl⟩
  | some dir =>
    simp only [restoreSubtrees] at hrun
    split at hrun
    · rename_i sub hsub
      have hdir : dir ≠ [] := by
        rintro rfl
        simp at hsub
      split at hrun
      · rename_i old hold
        cases hrun
        refine ⟨hsource.of_get? hsub, hhead.of_get? hold, ?_,
          blobAt_append hsub, fun r _ => blobAt_append hold r⟩
        rintro _ ⟨⟩
        exact hsub
      · rename_i hnone
        cases hrun
        refine ⟨hsource.of_get? hsub, trivial, ?_, blobAt_append hsub, ?_⟩
        · rintro _ ⟨⟩
          exact hsub
        · intro r hr
          change head.tree.blobAt (dir ++ r) = _
          rw [blobAt_append_of_no_tree hdir hr (fun sub h => hnone sub h)]
          cases r with
          | nil => rfl
          | cons name rest => simp [blobAt, get?,
              loadTreeEntries, entries, Assoc.ofList]
    · cases hrun

theorem restoreSubtrees_of_dir {projectDir : Option Path}
    {source : CommitId} (head : CommitId)
    (h : forall dir, projectDir = some dir ->
      exists sub, source.tree.get? dir = some (.tree (some sub))) :
    exists s t, restoreSubtrees projectDir source head =
      .ok (s, t) := by
  cases projectDir with
  | none => exact ⟨_, _, rfl⟩
  | some dir =>
    rcases h dir rfl with ⟨sub, hsub⟩
    simp only [restoreSubtrees, hsub]
    split
    · exact ⟨_, _, rfl⟩
    · exact ⟨_, _, rfl⟩

/-!
# The new tree
-/

/-- The head with the restored directory taken from the source. -/
def restoredFiles (source head : Tree) (q : Path) :
    Option BlobId :=
  if restoredDir projectDir <+: q then source.blobAt q else head.blobAt q

theorem restoredFiles_append (source head : Tree) (r : Path) :
    restoredFiles projectDir source head (restoredDir projectDir ++ r) =
      source.blobAt (restoredDir projectDir ++ r) :=
  if_pos (prefix_append _ r)

theorem restoredFiles_outside
    (source head : Tree) {q : Path} (h : ¬ restoredDir projectDir <+: q) :
    restoredFiles projectDir source head q = head.blobAt q :=
  if_neg h

theorem restoredTree_ok {projectDir : Option Path} {source head : CommitId}
    {s h : Tree} (hsource : source.tree.WellFormed)
    (hhead : head.tree.WellFormed)
    (hrun : restoreSubtrees projectDir source head = .ok (s, h))
    (hfile : forall d, Below d (restoredDir projectDir) ->
      head.tree.blobAt d = none) :
    exists t, restoredTree projectDir source head s = .ok t ∧
      t.WellFormed ∧ forall q, t.blobAt q =
        restoredFiles projectDir source.tree head.tree q := by
  rcases restoreSubtrees_ok hsource hhead hrun with
    ⟨hs, _, hdir, hsub, _⟩
  cases projectDir with
  | none => exact ⟨source.tree, rfl, hsource, fun _ => rfl⟩
  | some dir =>
    have hne : dir ≠ [] := by
      rintro rfl
      simpa using hdir [] rfl
    rcases TreeEditor.upsertSubtree_fromTree hhead hs hne hfile with
      ⟨e, hedit, hvalid, hinside, houtside⟩
    refine ⟨e.write, by rw [restoredTree, hedit]; rfl,
      TreeEditor.write_wellFormed hvalid, ?_⟩
    intro q
    rw [TreeEditor.blobAt_write hvalid]
    by_cases hq : dir <+: q
    · rcases hq with ⟨r, rfl⟩
      rw [hinside, ← hsub]
      exact (restoredFiles_append (some dir) source.tree head.tree r).symm
    · rw [houtside q hq]
      exact (restoredFiles_outside (some dir) source.tree head.tree hq).symm

/-!
# The write-back
-/

section WriteBack

variable {now : Int} {order : WritebackOrder} {projectDir : Option Path}
  {diff : RestoreDiff} {newCommit source head : CommitId} {vfs : WorkTree}

/-- The files to write, under their account paths. -/
def writeItems (projectDir : Option Path) (diff : RestoreDiff) :
    List (Path × BlobId) :=
  diff.toWrite.map fun b => (accountRel projectDir b.1, b.2)

private theorem writeTasks_eq :
    (diff.toWrite.map fun b => writeTask (accountRel projectDir b.1) b.2) =
      (writeItems projectDir diff).map fun b => writeTask b.1 b.2 := by
  simp [writeItems, Function.comp_def]

private theorem deleteTasks_eq :
    (diff.toDelete.map fun rel => deleteTask (accountRel projectDir rel)) =
      (diff.toDelete.map (accountRel projectDir)).map deleteTask := by
  simp [Function.comp_def]

theorem hasRoom_of_applied {response : RestoreResponse} {vfs' : WorkTree}
    (h : writeBack now order projectDir diff newCommit source head vfs =
      (.ok response, vfs')) :
    forall b, b ∈ diff.toWrite -> HasRoom vfs (accountRel projectDir b.1) := by
  intro b hb
  unfold writeBack at h
  simp only [writeTasks_eq] at h
  split at h
  · cases h
  rename_i hfail
  have hnil : failures (Task.runAll (execCall now) order.writes vfs
      ((writeItems projectDir diff).map fun b =>
        writeTask b.1 b.2)).2 = [] := by
    by_contra hne
    exact hfail (Or.inl hne)
  exact hasRoom_of_writes now order.writes vfs _ hnil
    (accountRel projectDir b.1, b.2) (mem_map.mpr ⟨b, hb, rfl⟩)

/-- A write-back that has room for every file reports success. -/
theorem writeBack_ok (now : Int) (order : WritebackOrder)
    (newCommit source head : CommitId)
    (hset : Writable vfs (writeItems projectDir diff))
    (hfiles : forall rel, rel ∈ diff.toDelete ->
      (vfs.fileAt (accountRel projectDir rel)).isSome)
    (hdisjoint : forall rel oid, rel ∈ diff.toDelete ->
      (accountRel projectDir rel, oid) ∉ writeItems projectDir diff) :
    exists written deleted writtenPaths deletedPaths vfs',
      writeBack now order projectDir diff newCommit source head vfs =
        (.ok (.applied newCommit source head written
          deleted diff.unchanged.length writtenPaths deletedPaths), vfs') ∧
      (forall q oid, (q, oid) ∈ writeItems projectDir diff ->
        vfs'.fileAt q = some oid.bytes) ∧
      (forall rel, rel ∈ diff.toDelete ->
        vfs'.fileAt (accountRel projectDir rel) = none) ∧
      forall q, (forall oid, (q, oid) ∉ writeItems projectDir diff) ->
        q ∉ diff.toDelete.map (accountRel projectDir) ->
          vfs'.fileAt q = vfs.fileAt q := by
  rcases runAll_writes now order.writes hset with
    ⟨hwfail, hwritten, hwother⟩
  have hmiss : forall p, p ∈ diff.toDelete.map (accountRel projectDir) ->
      forall oid, (p, oid) ∉ writeItems projectDir diff := by
    intro p hp oid
    rcases mem_map.mp hp with ⟨rel, hrel, rfl⟩
    exact hdisjoint rel oid hrel
  have hondisk : forall p, p ∈ diff.toDelete.map (accountRel projectDir) ->
      ((Task.runAll (execCall now) order.writes vfs
        ((writeItems projectDir diff).map fun b =>
          writeTask b.1 b.2)).1.fileAt p).isSome := by
    intro p hp
    rw [hwother p (hmiss p hp)]
    rcases mem_map.mp hp with ⟨rel, hrel, rfl⟩
    exact hfiles rel hrel
  rcases runAll_deletes now order.deletes hondisk with
    ⟨hdfail, hdeleted, hdother⟩
  unfold writeBack
  simp only [writeTasks_eq, deleteTasks_eq, hwfail, hdfail]
  refine ⟨_, _, _, _, _, rfl, ?_, ?_, ?_⟩
  · intro q oid hq
    rw [fileAt_pruneDirs, hdother q (fun hmem => hmiss q hmem oid hq)]
    exact hwritten q oid hq
  · intro rel hrel
    rw [fileAt_pruneDirs]
    exact hdeleted _ (mem_map.mpr ⟨rel, hrel, rfl⟩)
  · intro q hwrite hdelete
    rw [fileAt_pruneDirs, hdother q hdelete]
    exact hwother q hwrite

end WriteBack

/-!
# The whole call
-/

/-- The file that a path should hold when the branch has the given files. -/
def expectedFile (matcher : IgnoreMatcher) (vfs : WorkTree)
    (files : Path -> Option BlobId) (q : Path) : Option Bytes :=
  match files q with
  | some oid => some oid.bytes
  | none => if shouldTrackPath q matcher then none else vfs.fileAt q

/-- A restore that is neither dry nor overtaken did what it says. -/
structure RestoreCorrect (matcher : IgnoreMatcher) (vfs : WorkTree)
    (source head : CommitId) (projectDir : Option Path)
    (outcome : RestoreOutcome) : Prop where
  response : (exists newCommit written deleted unchanged writtenPaths
      deletedPaths, outcome.result = .ok (.applied
        newCommit source head written deleted unchanged writtenPaths
        deletedPaths)) ∨
    outcome.result = .ok (.noop head source)
  branch : exists commit, outcome.ref = some commit ∧
    FlattensTo commit.tree
      (restoredFiles projectDir source.tree head.tree)
  files : forall q, outcome.vfs.fileAt q = expectedFile matcher vfs
    (restoredFiles projectDir source.tree head.tree) q

structure RestoreCondition (vfs : WorkTree) (source head : Tree)
    (projectDir : Option Path) : Prop where
  sourceDir : forall dir, projectDir = some dir ->
    exists sub, source.get? dir = some (.tree (some sub))
  headDir : forall dir, projectDir = some dir -> head.blobAt dir = none
  room : forall q oid, restoredDir projectDir <+: q ->
    source.blobAt q = some oid -> head.blobAt q ≠ some oid -> HasRoom vfs q

section Restore

variable {matcher : IgnoreMatcher} {vfs : WorkTree} {source head : CommitId}
  {projectDir : Option Path}

def CleanWorkTree (matcher : IgnoreMatcher) (vfs : WorkTree) (head : Tree) :
    Prop :=
  forall q, trackedFiles matcher vfs q = head.blobAt q

section

variable {h : Tree} (hclean : CleanWorkTree matcher vfs h)

include hclean

theorem CleanWorkTree.fileAt
    {q : Path} {oid : BlobId} (hq : h.blobAt q = some oid) :
    vfs.fileAt q = some oid.bytes := by
  rw [← hclean q] at hq
  exact (trackedFiles_eq_some_iff.mp hq).2

theorem CleanWorkTree.tracked {q : Path} {oid : BlobId}
    (hq : h.blobAt q = some oid) : shouldTrackPath q matcher = true := by
  rw [← hclean q] at hq
  exact (trackedFiles_eq_some_iff.mp hq).1

theorem CleanWorkTree.expected {files : Path -> Option BlobId}
    {q : Path} (hq : files q = h.blobAt q) :
    vfs.fileAt q = expectedFile matcher vfs files q := by
  unfold expectedFile
  rw [hq]
  cases hfile : h.blobAt q with
  | some oid => exact hclean.fileAt hfile
  | none =>
    by_cases htrack : shouldTrackPath q matcher
    · have hnone := hclean q
      rw [hfile, trackedFiles, if_pos htrack] at hnone
      simp only [htrack, if_true]
      simpa using hnone
    · simp [htrack]

end

section

variable {s h : Tree} (hsource : source.tree.WellFormed) (hhead : head.tree.WellFormed)

include hsource hhead

theorem diff_delete_nil_of_file
    (hrun : restoreSubtrees projectDir source head = .ok (s, h))
    {d : Path} {oid : BlobId} (hd : d <+: restoredDir projectDir)
    (hfile : head.tree.blobAt d = some oid) :
    (computeSubtreeDiff s.flatten h.flatten).toDelete = [] := by
  rcases restoreSubtrees_ok hsource hhead hrun with ⟨hs, hh, _, _, hold⟩
  apply eq_nil_iff_forall_not_mem.mpr
  intro r hr
  rcases (mem_toDelete hs hh).mp hr with ⟨⟨oid', hoid⟩, _⟩
  have hne : r ≠ [] := by
    rintro rfl
    simp at hoid
  have hbelow : Below d (restoredDir projectDir ++ r) :=
    below_of_isPrefix_of_below hd (below_iff_exists.mpr ⟨r, hne, rfl⟩)
  rw [← hold r hne, blobAt_of_below_blob hfile hbelow] at hoid
  cases hoid

theorem no_file_above (hclean : CleanWorkTree matcher vfs head.tree)
    (hrun : restoreSubtrees projectDir source head = .ok (s, h))
    (hdiff : ¬ ((computeSubtreeDiff s.flatten h.flatten).toWrite = [] ∧
      (computeSubtreeDiff s.flatten h.flatten).toDelete = []))
    (hroom : forall b,
      b ∈ (computeSubtreeDiff s.flatten h.flatten).toWrite ->
        HasRoom vfs (accountRel projectDir b.1))
    {d : Path} (hd : d <+: restoredDir projectDir) :
    head.tree.blobAt d = none := by
  cases hfile : head.tree.blobAt d with
  | none => rfl
  | some oid =>
    rcases restoreSubtrees_ok hsource hhead hrun with ⟨hs, hh, _⟩
    have hdelete := diff_delete_nil_of_file hsource hhead hrun hd hfile
    have hwrite : (computeSubtreeDiff s.flatten h.flatten).toWrite ≠ [] :=
      fun hnil => hdiff ⟨hnil, hdelete⟩
    rcases exists_mem_of_ne_nil _ hwrite with ⟨⟨r, oid'⟩, hmem⟩
    have hne : r ≠ [] := by
      rintro rfl
      simpa using ((mem_toWrite hs hh).mp hmem).1
    have hbelow : Below d (accountRel projectDir r) :=
      below_of_isPrefix_of_below hd (below_iff_exists.mpr ⟨r, hne, rfl⟩)
    have hnone := (hroom _ hmem).2 d hbelow
    rw [hclean.fileAt hfile] at hnone
    cases hnone

section

variable (hrun : restoreSubtrees projectDir source head = .ok (s, h))

include hrun

theorem source_eq_head_of_diff_nil
    (hhdir : forall dir, projectDir = some dir ->
      head.tree.blobAt dir = none)
    (hwrite : (computeSubtreeDiff s.flatten h.flatten).toWrite = [])
    (hdelete : (computeSubtreeDiff s.flatten h.flatten).toDelete = [])
    (q : Path) :
    restoredFiles projectDir source.tree head.tree q =
      head.tree.blobAt q := by
  rcases restoreSubtrees_ok hsource hhead hrun with ⟨hs, hh, _, hsub, hold⟩
  by_cases hq : restoredDir projectDir <+: q
  · rcases hq with ⟨r, rfl⟩
    rw [restoredFiles_append, hsub]
    by_cases hr : r = []
    · subst hr
      rw [blobAt_nil_path, append_nil]
      cases projectDir with
      | none => exact (blobAt_nil_path _).symm
      | some dir => exact (hhdir dir rfl).symm
    · rw [hold r hr, blobAt_eq_of_diff_nil hs hh hwrite hdelete]
  · exact restoredFiles_outside _ _ _ hq

theorem mem_writeItems
    {q : Path} {oid : BlobId} :
    (q, oid) ∈ writeItems projectDir
        (computeSubtreeDiff s.flatten h.flatten) <->
      restoredDir projectDir <+: q ∧ source.tree.blobAt q = some oid ∧
        head.tree.blobAt q ≠ some oid ∧ q ≠ restoredDir projectDir := by
  rcases restoreSubtrees_ok hsource hhead hrun with ⟨hs, hh, _, hsub, hold⟩
  unfold writeItems
  rw [mem_map]
  constructor
  · rintro ⟨⟨r, oid'⟩, hmem, heq⟩
    cases heq
    rcases (mem_toWrite hs hh).mp hmem with ⟨hsoid, hhoid⟩
    have hr : r ≠ [] := by
      rintro rfl
      simp at hsoid
    refine ⟨prefix_append _ r, (hsub r).trans hsoid, ?_, ?_⟩
    · intro hne
      exact hhoid ((hold r hr).symm.trans hne)
    · intro heq
      exact hr (append_cancel_left (heq.trans (append_nil _).symm))
  · rintro ⟨⟨r, rfl⟩, hsoid, hhoid, hne⟩
    have hr : r ≠ [] := by
      rintro rfl
      exact hne (append_nil _)
    rw [hsub] at hsoid
    rw [hold r hr] at hhoid
    exact ⟨(r, oid), (mem_toWrite hs hh).mpr ⟨hsoid, hhoid⟩, rfl⟩

theorem mem_deleteItems
    {q : Path} :
    q ∈ (computeSubtreeDiff s.flatten h.flatten).toDelete.map
        (accountRel projectDir) <->
      restoredDir projectDir <+: q ∧ HadFile head.tree q ∧
        source.tree.blobAt q = none ∧ q ≠ restoredDir projectDir := by
  rcases restoreSubtrees_ok hsource hhead hrun with ⟨hs, hh, _, hsub, hold⟩
  rw [mem_map]
  constructor
  · rintro ⟨r, hmem, rfl⟩
    rcases (mem_toDelete hs hh).mp hmem with ⟨⟨oid, hoid⟩, hnone⟩
    have hr : r ≠ [] := by
      rintro rfl
      simp at hoid
    refine ⟨prefix_append _ r, ⟨oid, (hold r hr).trans hoid⟩,
      (hsub r).trans hnone, ?_⟩
    intro heq
    exact hr (append_cancel_left (heq.trans (append_nil _).symm))
  · rintro ⟨⟨r, rfl⟩, ⟨oid, hoid⟩, hnone, hne⟩
    have hr : r ≠ [] := by
      rintro rfl
      exact hne (append_nil _)
    rw [hsub] at hnone
    rw [hold r hr] at hoid
    exact ⟨r, (mem_toDelete hs hh).mpr ⟨⟨oid, hoid⟩, hnone⟩, rfl⟩

end

end

section Outcome

variable {shortHex : CommitId -> String} {now : Int} {order : WritebackOrder}
  {req : RestoreRequest}

section

variable (hsource : source.tree.WellFormed) (hhead : head.tree.WellFormed)
    (hclean : CleanWorkTree matcher vfs head.tree)

include hsource hhead hclean

/-- A call that reports success met its condition. -/
theorem condition_of_correct
    (hcorrect : RestoreCorrect matcher vfs source head projectDir
      (restoreImpl shortHex now order vfs source head (some head) projectDir
        req)) (hdry : req.dryRun = false) :
    RestoreCondition vfs source.tree head.tree projectDir := by
  rcases hcorrect with ⟨hresponse, ⟨commit, href, hflat⟩, _⟩
  unfold restoreImpl at hresponse href
  cases hrun : restoreSubtrees projectDir source head with
  | error e =>
    simp only [hrun] at hresponse
    rcases hresponse with ⟨_, _, _, _, _, _, h⟩ | h <;> cases h
  | ok subtrees =>
    rcases subtrees with ⟨s, h⟩
    rcases restoreSubtrees_ok hsource hhead hrun with
      ⟨hs, hh, hdir, hsub, hold⟩
    have hsourceDir : forall dir, projectDir = some dir ->
        exists sub, source.tree.get? dir = some (.tree (some sub)) :=
      fun dir heq => ⟨s, hdir dir heq⟩
    simp only [hrun, hdry, Bool.false_eq_true, if_false] at hresponse href
    by_cases hdiff : (computeSubtreeDiff s.flatten h.flatten).toWrite = [] ∧
        (computeSubtreeDiff s.flatten h.flatten).toDelete = []
    · rw [if_pos hdiff] at href
      cases href
      rw [flattensTo_iff hhead] at hflat
      refine ⟨hsourceDir, ?_, ?_⟩
      · rintro dir rfl
        have hsame := hflat (restoredDir (some dir) ++ [])
        rw [restoredFiles_append, hsub, blobAt_nil_path,
          append_nil] at hsame
        exact hsame
      · intro q oid hq hoid hne
        rw [hflat q, restoredFiles, if_pos hq] at hne
        exact absurd hoid hne
    · rw [if_neg hdiff] at hresponse
      cases htree : restoredTree projectDir source head s with
      | error e =>
        simp only [htree] at hresponse
        rcases hresponse with ⟨_, _, _, _, _, _, h⟩ | h <;> cases h
      | ok newTree =>
        simp only [htree, if_true] at hresponse
        have hroom : forall b,
            b ∈ (computeSubtreeDiff s.flatten h.flatten).toWrite ->
              HasRoom vfs (accountRel projectDir b.1) := by
          rcases hresponse with ⟨_, _, _, _, _, _, happlied⟩ | hnoop
          · exact hasRoom_of_applied (Prod.ext happlied rfl)
          · exact hasRoom_of_applied (Prod.ext hnoop rfl)
        refine ⟨hsourceDir, ?_, ?_⟩
        · rintro dir rfl
          exact no_file_above hsource hhead hclean hrun hdiff hroom
            prefix_rfl
        · rintro q oid ⟨r, rfl⟩ hoid hne
          rw [hsub] at hoid
          have hr : r ≠ [] := by
            rintro rfl
            simp at hoid
          rw [hold r hr] at hne
          exact hroom (r, oid) ((mem_toWrite hs hh).mpr ⟨hoid, hne⟩)

/-- A call that meets its condition reproduces the source. -/
theorem correct_of_condition
    (hcond : RestoreCondition vfs source.tree head.tree projectDir)
    (hdry : req.dryRun = false) :
    RestoreCorrect matcher vfs source head projectDir
      (restoreImpl shortHex now order vfs source head (some head) projectDir
        req) := by
  rcases restoreSubtrees_of_dir head hcond.sourceDir with
    ⟨s, h, hrun⟩
  rcases restoreSubtrees_ok hsource hhead hrun with ⟨hs, hh, _, hsub, hold⟩
  unfold restoreImpl
  simp only [hrun, hdry, Bool.false_eq_true, if_false]
  by_cases hdiff : (computeSubtreeDiff s.flatten h.flatten).toWrite = [] ∧
      (computeSubtreeDiff s.flatten h.flatten).toDelete = []
  · rw [if_pos hdiff]
    have hsame := source_eq_head_of_diff_nil hsource hhead hrun hcond.headDir
      hdiff.1 hdiff.2
    refine ⟨Or.inr rfl, ⟨head, rfl, ?_⟩, fun q => hclean.expected (hsame q)⟩
    rw [flattensTo_iff hhead]
    exact fun q => (hsame q).symm
  · rw [if_neg hdiff]
    have hitems := @mem_writeItems source head projectDir s h hsource hhead hrun
    have hdeletes := @mem_deleteItems source head projectDir s h hsource hhead
      hrun
    have hset : Writable vfs (writeItems projectDir
        (computeSubtreeDiff s.flatten h.flatten)) := by
      constructor
      · intro p o o' ho ho'
        have heq := (hitems.mp ho).2.1.symm.trans (hitems.mp ho').2.1
        exact Option.some.inj heq
      · intro p q o o' ho ho' hb
        have hnone := blobAt_of_below_blob (hitems.mp ho).2.1 hb
        rw [(hitems.mp ho').2.1] at hnone
        cases hnone
      · intro p o ho
        rcases hitems.mp ho with ⟨hpre, hsoid, hhoid, _⟩
        exact hcond.room p o hpre hsoid hhoid
    have hroom : forall b, b ∈ (computeSubtreeDiff s.flatten h.flatten).toWrite ->
          HasRoom vfs (accountRel projectDir b.1) :=
      fun b hb => hset.room (mem_map.mpr ⟨b, hb, rfl⟩)
    rcases restoredTree_ok hsource hhead hrun (fun d hd =>
        no_file_above hsource hhead hclean hrun hdiff hroom hd.isPrefix) with
      ⟨newTree, htree, hwf, hfiles⟩
    rcases writeBack_ok now order
        (writeCommit newTree (some head) {
          authorName := req.authorName
          authorEmail := req.authorEmail
          message := restoreMessage shortHex req source
          time := now / 1000000000 }) source head hset
        (fun rel hrel => by
          rcases hdeletes.mp (mem_map_of_mem hrel) with
            ⟨_, ⟨oid, hoid⟩, _⟩
          rw [hclean.fileAt hoid]
          rfl)
        (fun rel oid hrel hmem => by
          have hnone := (hdeletes.mp (mem_map_of_mem hrel)).2.2.1
          rw [(hitems.mp hmem).2.1] at hnone
          cases hnone) with
      ⟨written, deleted, writtenPaths, deletedPaths, vfs', hback, hwritten,
        hdeleted, hother⟩
    simp only [htree, if_true, hback]
    refine ⟨Or.inl ⟨_, _, _, _, _, _, rfl⟩, ⟨_, rfl, ?_⟩, ?_⟩
    · rw [tree_writeCommit, flattensTo_iff hwf]
      exact hfiles
    intro q
    by_cases hwrite : exists oid, (q, oid) ∈ writeItems projectDir
        (computeSubtreeDiff s.flatten h.flatten)
    · rcases hwrite with ⟨oid, hmem⟩
      rcases hitems.mp hmem with ⟨hpre, hsoid, _⟩
      rw [hwritten q oid hmem, expectedFile, restoredFiles, if_pos hpre, hsoid]
    have hnowrite : forall oid, (q, oid) ∉ writeItems projectDir
        (computeSubtreeDiff s.flatten h.flatten) :=
      fun oid hmem => hwrite ⟨oid, hmem⟩
    by_cases hdelete : q ∈ (computeSubtreeDiff s.flatten h.flatten).toDelete.map
          (accountRel projectDir)
    · rcases hdeletes.mp hdelete with ⟨hpre, ⟨oid, hoid⟩, hnone, _⟩
      rcases mem_map.mp hdelete with ⟨rel, hrel, rfl⟩
      rw [hdeleted rel hrel, expectedFile, restoredFiles, if_pos hpre, hnone]
      simp [hclean.tracked hoid]
    · rw [hother q hnowrite hdelete]
      apply hclean.expected
      by_cases hpre : restoredDir projectDir <+: q
      · rw [restoredFiles, if_pos hpre]
        by_cases hq : q = restoredDir projectDir
        · subst hq
          have hsnone := hsub []
          rw [append_nil, blobAt_nil_path] at hsnone
          rw [hsnone]
          cases projectDir with
          | none => exact (blobAt_nil_path _).symm
          | some dir => exact (hcond.headDir dir rfl).symm
        · cases hsoid : source.tree.blobAt q with
          | some oid =>
            by_contra hne
            exact hnowrite oid (hitems.mpr ⟨hpre, hsoid, Ne.symm hne, hq⟩)
          | none =>
            by_contra hne
            rcases Option.ne_none_iff_exists'.mp (Ne.symm hne) with
              ⟨oid, hoid⟩
            exact hdelete (hdeletes.mpr ⟨hpre, ⟨oid, hoid⟩, hsoid, hq⟩)
      · exact restoredFiles_outside _ _ _ hpre

end

end Outcome

/--
A restore reproduces its source exactly under `RestoreCondition`.  A dry run
and a restore that loses the race for the ref change nothing.
-/
theorem restore_correct_iff (shortHex : CommitId -> String) (now : Int)
    (order : WritebackOrder) (req : RestoreRequest)
    (hsource : source.tree.WellFormed) (hhead : head.tree.WellFormed)
    (hdir : req.projectDir.mapM validateProjectDir = .ok projectDir)
    (hclean : CleanWorkTree matcher vfs head.tree) :
    (req.dryRun = false ->
      (RestoreCorrect matcher vfs source head projectDir
          (restore shortHex now order vfs source head (some head) req) <->
        RestoreCondition vfs source.tree head.tree projectDir)) ∧
    forall current, req.dryRun = true ∨ current ≠ some head ->
      (restore shortHex now order vfs source head current req).vfs = vfs ∧
        (restore shortHex now order vfs source head current req).ref =
          current := by
  unfold restore
  rw [hdir]
  refine ⟨fun hdry => ⟨fun hcorrect => condition_of_correct hsource hhead
    hclean hcorrect hdry, fun hcond => correct_of_condition hsource hhead
    hclean hcond hdry⟩, ?_⟩
  intro current hlost
  simp only [restoreImpl]
  split
  · exact ⟨rfl, rfl⟩
  split
  · exact ⟨rfl, rfl⟩
  · rename_i hdry
    have hrace := hlost.resolve_left hdry
    split
    · exact ⟨rfl, rfl⟩
    · split
      · exact ⟨rfl, rfl⟩
      · exact ⟨rfl, rfl⟩

end Restore

/-!
# A file of the head that is a directory of the source
-/

private def spliceName : Name := nameA

private def innerName : Name := nameB

private def fileHead : CommitId :=
  CommitId.root (.blob spliceName ⟨[1]⟩ .nil) sampleInfo

private def directorySource : CommitId :=
  CommitId.root
    (.dir spliceName (.blob innerName ⟨[2]⟩ .nil) .nil)
    sampleInfo

private def fileWorkTree : WorkTree :=
  (empty.write 1 [spliceName] [1]).toOption.getD empty

private def fullRestore : RestoreRequest where
  projectDir := none
  dryRun := false
  message := none
  authorName := "author"
  authorEmail := "author@example.org"

/-- It is enough to look at the nodes there are and at the files of the tree. -/
theorem cleanWorkTree_of_nodes {matcher : IgnoreMatcher} {w : WorkTree} {t : Tree}
    (ht : t.WellFormed)
    (hnodes : forall q, q ∈ w.nodes.keys -> trackedFiles matcher w q = t.blobAt q)
    (hfiles : forall b, b ∈ t.flatten -> b.1 ∈ w.nodes.keys) :
    CleanWorkTree matcher w t := by
  intro q
  by_cases hq : q ∈ w.nodes.keys
  · exact hnodes q hq
  have htree : t.blobAt q = none := by
    apply Option.eq_none_iff_forall_ne_some.mpr
    intro oid hoid
    exact hq (hfiles (q, oid) ((mem_flatten ht).mpr hoid))
  have hnode : w.nodes.find q = none := AList.lookup_eq_none.mpr hq
  have hdisk : w.fileAt q = none := by
    unfold fileAt node?
    by_cases hnil : q = []
    · rw [if_pos hnil]
    · rw [if_neg hnil, hnode]
  rw [htree, trackedFiles, hdisk]
  simp

private theorem fileWorkTree_clean :
    CleanWorkTree IgnoreMatcher.empty fileWorkTree fileHead.tree :=
  cleanWorkTree_of_nodes ⟨not_mem_nil, trivial⟩ (by decide) (by decide)

/-- The ref advances, and the write of `a/b` fails. -/
theorem restore_file_to_directory_not_correct :
    CleanWorkTree IgnoreMatcher.empty fileWorkTree fileHead.tree ∧
      ¬ RestoreCorrect IgnoreMatcher.empty fileWorkTree directorySource
        fileHead none (restore (fun _ => "") 5 ⟨[], []⟩ fileWorkTree
          directorySource fileHead (some fileHead) fullRestore) := by
  refine ⟨fileWorkTree_clean, ?_⟩
  rintro ⟨hresponse, _, _⟩
  have herr : (restore (fun _ => "") 5 ⟨[], []⟩ fileWorkTree directorySource
      fileHead (some fileHead) fullRestore).result.toOption.isSome =
        false := by decide
  rcases hresponse with ⟨_, _, _, _, _, _, h⟩ | h
  · rw [h] at herr
    cases herr
  · rw [h] at herr
    cases herr

/-- A head with `a/b` and `b`. -/
private def twoFilesHead : CommitId :=
  CommitId.root (.dir spliceName (.blob innerName ⟨[1]⟩ .nil)
    (.blob innerName ⟨[3]⟩ .nil)) sampleInfo

private def twoFiles : WorkTree :=
  (((empty.mkdir 1 [spliceName]).bind fun w =>
    w.write 1 [spliceName, innerName] [1]).bind fun w =>
      w.write 1 [innerName] [3]).toOption.getD empty

private def directoryRestore : RestoreRequest :=
  { fullRestore with projectDir := some "a".toList }

/-- The directory `a` is restored, and `b` beside it stays. -/
theorem restore_correct_iff_directory :
    RestoreCorrect IgnoreMatcher.empty twoFiles directorySource twoFilesHead
        (some [spliceName]) (restore (fun _ => "") 5 ⟨[], []⟩ twoFiles
          directorySource twoFilesHead (some twoFilesHead) directoryRestore) ∧
      (restore (fun _ => "") 5 ⟨[], []⟩ twoFiles directorySource twoFilesHead
        none directoryRestore).vfs = twoFiles := by
  have hhead : twoFilesHead.tree.WellFormed := by
    refine ⟨by decide, ⟨not_mem_nil, trivial⟩, not_mem_nil, trivial⟩
  have hsource : directorySource.tree.WellFormed :=
    ⟨not_mem_nil, ⟨not_mem_nil, trivial⟩, trivial⟩
  have hclean : CleanWorkTree IgnoreMatcher.empty twoFiles twoFilesHead.tree :=
    cleanWorkTree_of_nodes hhead (by decide) (by decide)
  have hmain := restore_correct_iff (fun _ => "") 5 ⟨[], []⟩ directoryRestore
    hsource hhead rfl hclean
  refine ⟨(hmain.1 rfl).mpr ?_, (hmain.2 none (Or.inr (by simp))).1⟩
  constructor
  · rintro dir ⟨⟩
    exact ⟨_, rfl⟩
  · rintro dir ⟨⟩
    rfl
  · intro q oid _ hoid _
    rcases mem_singleton.mp ((mem_flatten hsource).mpr hoid) with ⟨⟩
    rcases write_inv (show twoFiles.write 9 [spliceName, innerName] [] = .ok _
      from rfl) with ⟨hfile, habove, _⟩
    exact ⟨hfile, fun d hd => fileAt_of_isDir (habove d hd)⟩

end Git
end OpenViking
