import OpenViking.Git.CommitLoop
import OpenViking.Git.FileOps

/-!
# Full commits

A commit without a path list should make the branch head flatten to the
tracked files of the working tree.  It does, unless the ignore file cannot be
read, a trusted index entry is stale, or a tracked file of the previous head
has become a directory.
-/

namespace OpenViking
namespace Git

open Paths

/-- The flattened tree is the given map of files. -/
def FlattensTo (t : Tree) (files : Path -> Option BlobId) : Prop :=
  forall p oid, (p, oid) ∈ t.flatten <-> files p = some oid

theorem flattensTo_iff {t : Tree} (h : t.WellFormed)
    {files : Path -> Option BlobId} :
    FlattensTo t files <-> forall p, t.blobAt p = files p := by
  unfold FlattensTo
  simp only [Tree.mem_flatten h]
  constructor
  · intro hflat p
    apply Option.ext
    intro oid
    exact hflat p oid
  · intro heq p oid
    rw [heq]

/-- The files on disk that belong in a snapshot, with their blob ids. -/
def trackedFiles (matcher : IgnoreMatcher) (vfs : WorkTree) (p : Path) :
    Option BlobId :=
  if shouldTrackPath p matcher then (vfs.fileAt p).map BlobId.mk else none

variable {matcher : IgnoreMatcher}

variable {vfs : WorkTree}

theorem trackedFiles_eq_some_iff {p : Path} {oid : BlobId} :
    trackedFiles matcher vfs p = some oid <->
      Tracked matcher p ∧ vfs.fileAt p = some oid.bytes := by
  unfold trackedFiles Tracked
  by_cases h : shouldTrackPath p matcher = true
  · rw [if_pos h]
    simp only [h, true_and, Option.map_eq_some_iff]
    constructor
    · rintro ⟨data, hdata, rfl⟩
      exact hdata
    · intro hdata
      exact ⟨oid.bytes, hdata, rfl⟩
  · simp [h]

theorem trackedFiles_of_not_tracked {p : Path} (h : ¬ Tracked matcher p) :
    trackedFiles matcher vfs p = none :=
  if_neg h

theorem trackedFiles_of_not_onDisk {p : Path} (h : vfs.fileAt p = none) :
    trackedFiles matcher vfs p = none := by
  unfold trackedFiles
  rw [h]
  simp

theorem trackedFiles_none_of_not {p : Path}
    (h : ¬ (Tracked matcher p ∧ OnDisk vfs p)) :
    trackedFiles matcher vfs p = none := by
  cases hfiles : trackedFiles matcher vfs p with
  | none => rfl
  | some oid =>
    have := trackedFiles_eq_some_iff.mp hfiles
    exact absurd ⟨this.1, oid.bytes, this.2⟩ h

/-!
# Index entries
-/

/--
A tracked file whose index entry the commit trusts although it names other
bytes.
-/
def StaleEntry (matcher : IgnoreMatcher) (vfs : WorkTree)
    (index : Option CommitIndex) (p : Path) : Prop :=
  Tracked matcher p ∧ exists data info oid, vfs.fileAt p = some data ∧
    vfs.stat p = .ok info ∧ cachedOid index p info = some oid ∧
    oid.bytes ≠ data

variable {index : Option CommitIndex} {p : Path}

theorem seenOid_of_not_stale {data : Bytes}
    (h : ¬ StaleEntry matcher vfs index p) (htrack : Tracked matcher p)
    (hdata : vfs.fileAt p = some data) :
    seenOid vfs index p = some ⟨data⟩ := by
  rcases seenOid_of_fileAt index hdata with ⟨info, hstat, hseen⟩
  rw [hseen]
  cases hcached : cachedOid index p info with
  | none => rfl
  | some oid =>
    by_cases hbytes : oid.bytes = data
    · rw [← hbytes]
      rfl
    · exact absurd ⟨htrack, data, info, oid, hdata, hstat, hcached, hbytes⟩ h

/-- A stale entry shows in the oid that the loop computes. -/
theorem StaleEntry.seenOid (h : StaleEntry matcher vfs index p) :
    exists data oid, vfs.fileAt p = some data ∧
      seenOid vfs index p = some oid ∧ oid ≠ ⟨data⟩ := by
  rcases h with ⟨_, data, info, oid, hdata, hstat, hcached, hne⟩
  refine ⟨data, oid, hdata, ?_, fun heq => hne (congrArg BlobId.bytes heq)⟩
  rcases seenOid_of_fileAt index hdata with ⟨info', hstat', hseen⟩
  rw [hstat] at hstat'
  cases hstat'
  rw [hseen, hcached]
  rfl

/-- The loop reads a directory only through a trusted entry. -/
theorem seenOid_of_isDir (hdir : vfs.IsDir p) {oid : BlobId} :
    seenOid vfs index p = some oid <->
      exists info, vfs.stat p = .ok info ∧
        cachedOid index p info = some oid := by
  rw [seenOid_eq_some_iff]
  rcases hdir with ⟨modTime, hnode⟩
  apply exists_congr
  intro info
  apply and_congr_right
  intro _
  unfold candidateOid WorkTree.read
  rw [hnode]
  cases cachedOid index p info <;> simp

/-!
# What a call stores
-/

section Stores

variable {prevTree : Tree} {paths : Option (List Path)}

theorem not_stored_below_file {u : Path} {data : Bytes}
    (hu : Stored matcher vfs index prevTree paths u)
    (hdata : vfs.fileAt p = some data) : ¬ Below p u := fun hb =>
  WorkTree.not_isDir_of_fileAt hdata (WorkTree.isDir_of_below hu.not_missing hb)

theorem not_stored_above_hadFile {u : Path}
    (hu : Stored matcher vfs index prevTree paths u)
    (hhad : HadFile prevTree p) (hp : ¬ vfs.Missing p) : ¬ Below u p := fun hb =>
  (hu.1.hadFile (WorkTree.isDir_of_below hp hb)).not_below hhad hb

/-- Without a tracked file below it, nothing is stored below an old file. -/
theorem not_stored_below_hadFile {u : Path}
    (hu : Stored matcher vfs index prevTree paths u)
    (hhad : HadFile prevTree p)
    (hnone : forall f, Below p f -> Tracked matcher f -> ¬ OnDisk vfs f) :
    ¬ Below p u := by
  intro hb
  rcases vfs.node?_cases u with hdisk | hdir | hmiss
  · exact hnone u hb hu.1.2.2 hdisk
  · exact hhad.not_below (hu.1.hadFile hdir) hb
  · exact hu.not_missing hmiss

theorem stored_of_hadFile_above {q f : Path} (h : HadFile prevTree q)
    (hb : Below q f) (hcand : Candidate matcher vfs prevTree paths f)
    (hdisk : OnDisk vfs f) : Stored matcher vfs index prevTree paths f := by
  rcases h with ⟨oid', hoid⟩
  rcases hdisk with ⟨data, hdata⟩
  rcases seenOid_of_fileAt index hdata with ⟨info, _, hseen⟩
  refine ⟨hcand, _, hseen, ?_⟩
  rw [Tree.get?_below_blob (Tree.blobAt_eq_some_iff.mp hoid) hb]
  simp

/-- A candidate keeps its oid unless something below it is stored. -/
theorem committedFiles_of_seen {oid : BlobId}
    (hcand : Candidate matcher vfs prevTree paths p)
    (hseen : seenOid vfs index p = some oid)
    (hbelow : forall u, Stored matcher vfs index prevTree paths u ->
      ¬ Below p u) :
    committedFiles matcher vfs index prevTree paths p = some oid := by
  have hexists := not_missing_of_seenOid hseen
  by_cases hprev : prevTree.get? p = some (.blob oid)
  · have hhad : HadFile prevTree p := ⟨oid, Tree.blobAt_eq_some_iff.mpr hprev⟩
    rw [Untouched.committedFiles, Tree.blobAt_eq_some_iff.mpr hprev]
    constructor
    · exact fun h => h.2.2 hcand.2.2
    · rintro ⟨_, oid', hoid', hne⟩
      rw [hseen] at hoid'
      cases hoid'
      exact hne hprev
    · rintro u hu (hb | hb)
      · exact not_stored_above_hadFile hu hhad hexists hb
      · exact hbelow u hu hb
    · exact fun r hr => not_prefix_of_missing hr.2.1 hexists
  · unfold committedFiles editedFiles
    rw [if_neg fun ⟨u, hu, hb⟩ => hbelow u hu hb, if_pos ⟨hcand, oid, hseen, hprev⟩,
      hseen]

/-- Every file of the new tree was stored or is an untouched old one. -/
theorem committedFiles_eq_some {oid : BlobId}
    (h : committedFiles matcher vfs index prevTree paths p = some oid) :
    (forall u, Stored matcher vfs index prevTree paths u -> ¬ Below p u) ∧
    (Stored matcher vfs index prevTree paths p ∨
      HadFile prevTree p ∧ Untouched matcher vfs index prevTree paths p) := by
  classical
  unfold committedFiles editedFiles at h
  rw [ite_eq_iff] at h
  rcases h with ⟨_, hnone⟩ | ⟨hbelow, h⟩
  · cases hnone
  rw [not_exists] at hbelow
  refine ⟨fun u hu hb => hbelow u ⟨hu, hb⟩, ?_⟩
  by_cases hp : Stored matcher vfs index prevTree paths p
  · exact .inl hp
  rw [if_neg hp, ite_eq_iff] at h
  rcases h with ⟨_, hnone⟩ | ⟨habove, h⟩
  · cases hnone
  rw [ite_eq_iff] at h
  rcases h with ⟨_, hnone⟩ | ⟨hdel, h⟩
  · cases hnone
  unfold keptFiles at h
  rw [ite_eq_iff] at h
  rcases h with ⟨_, hnone⟩ | ⟨hdrop, h⟩
  · cases hnone
  refine .inr ⟨⟨oid, h⟩, hdrop, hp, ?_, fun r hr hpre => hdel ⟨r, hr, hpre⟩⟩
  rintro u hu (hb | hb)
  · exact habove ⟨u, hu, hb⟩
  · exact hbelow u ⟨hu, hb⟩

end Stores

/-!
# Correctness
-/

/--
A full commit does its job: it succeeds, the new head flattens to the tracked
files, and it is a no-op exactly when the old head already did.
-/
def FullCommitCorrect (parse : IgnoreParser) (vfs : WorkTree)
    (branch : Branch)
    (result : Except GitError (CommitResponse × Branch)) : Prop :=
  exists matcher response branch', loadIgnoreMatcher parse vfs = .ok matcher ∧
    result = .ok (response, branch') ∧
    FlattensTo (headTree branch'.head) (trackedFiles matcher vfs) ∧
    ((branch'.head = branch.head ∧ exists ignored,
        response = .noop branch.head ignored) <->
      FlattensTo (headTree branch.head) (trackedFiles matcher vfs))

/--
An old file that is a directory now, with a tracked file below it, and with a
trusted index entry: the commit takes it for a file at first.
-/
def Replaced (matcher : IgnoreMatcher) (vfs : WorkTree)
    (index : Option CommitIndex) (p : Path) : Prop :=
  (exists info oid, vfs.stat p = .ok info ∧
    cachedOid index p info = some oid) ∧
  exists f, Below p f ∧ Tracked matcher f ∧ OnDisk vfs f

/--
The ignore file can be read, no index entry is stale, and no tracked file of
the previous tree is a directory on disk that the commit cannot replace.
-/
def FullCondition (parse : IgnoreParser) (vfs : WorkTree)
    (index : Option CommitIndex) (prevTree : Tree) : Prop :=
  exists matcher, loadIgnoreMatcher parse vfs = .ok matcher ∧
    (forall p, ¬ StaleEntry matcher vfs index p) ∧
    forall p, HadFile prevTree p -> Tracked matcher p -> vfs.IsDir p ->
      Replaced matcher vfs index p

section FullCommit

variable {prevTree : Tree}

theorem candidate_none_iff :
    Candidate matcher vfs prevTree none p <->
      (OnDisk vfs p ∨ HadFile prevTree p) ∧ Tracked matcher p := by
  simp [Candidate, ListedLeaf, Covered]

theorem dropped_none_iff :
    Dropped matcher vfs prevTree none p <->
      HadFile prevTree p ∧ ¬ Tracked matcher p := by
  simp [Dropped, Covered]

section Splits

variable (hstale : forall p, ¬ StaleEntry matcher vfs index p)

include hstale

/-- Under the condition a full commit stores the tracked files. -/
theorem committedFiles_full
    (hdirs : forall p, HadFile prevTree p -> Tracked matcher p -> vfs.IsDir p ->
      Replaced matcher vfs index p) (p : Path) :
    committedFiles matcher vfs index prevTree none p =
      trackedFiles matcher vfs p := by
  by_cases hfile : Tracked matcher p ∧ OnDisk vfs p
  · rcases hfile with ⟨htrack, data, hdata⟩
    rw [trackedFiles_eq_some_iff.mpr ⟨htrack, hdata⟩]
    apply committedFiles_of_seen
    · exact candidate_none_iff.mpr ⟨.inl ⟨data, hdata⟩, htrack⟩
    · exact seenOid_of_not_stale (hstale p) htrack hdata
    · exact fun u hu => not_stored_below_file hu hdata
  -- A path that is not a tracked file ends up without a blob.
  rw [trackedFiles_none_of_not hfile, Option.eq_none_iff_forall_ne_some]
  intro oid hoid
  rcases committedFiles_eq_some hoid with ⟨hbelow, hcases⟩
  have hdir : HadFile prevTree p -> Tracked matcher p -> ¬ vfs.IsDir p := by
    intro hhad htrack hdir
    rcases (hdirs p hhad htrack hdir).2 with ⟨f, hb, hf, hdisk⟩
    exact hbelow f (stored_of_hadFile_above hhad hb
      (candidate_none_iff.mpr ⟨.inl hdisk, hf⟩) hdisk) hb
  rcases hcases with hp | ⟨hhad, huntouched⟩
  · have htrack := (candidate_none_iff.mp hp.1).2
    rcases vfs.node?_cases p with hdisk | hd | hmiss
    · exact hfile ⟨htrack, hdisk⟩
    · exact hdir (hp.1.hadFile hd) htrack hd
    · exact hp.not_missing hmiss
  · have htrack : Tracked matcher p := by
      by_contra hnot
      exact huntouched.kept (dropped_none_iff.mpr ⟨hhad, hnot⟩)
    rcases vfs.node?_cases p with hdisk | hd | hmiss
    · exact hfile ⟨htrack, hdisk⟩
    · exact hdir hhad htrack hd
    · rcases hhad with ⟨oid', hoid'⟩
      refine huntouched.notDeleted p ⟨candidate_none_iff.mpr
        ⟨.inr ⟨oid', hoid'⟩, htrack⟩, hmiss, ?_⟩ List.prefix_rfl
      rw [Tree.blobAt_eq_some_iff.mp hoid']
      rfl

theorem noEdits_full_iff
    (hfull : forall p, committedFiles matcher vfs index prevTree none p =
      trackedFiles matcher vfs p) :
    NoEdits matcher vfs index prevTree none <->
      forall p, prevTree.blobAt p = trackedFiles matcher vfs p := by
  constructor
  · intro hnone p
    rw [← hfull, committedFiles_of_noEdits hnone]
  intro heq p
  have hhad : forall {oid}, prevTree.blobAt p = some oid ->
      Tracked matcher p ∧ vfs.fileAt p = some oid.bytes := by
    intro oid hoid
    rw [heq] at hoid
    exact trackedFiles_eq_some_iff.mp hoid
  refine ⟨?_, ?_, ?_⟩
  · intro hdrop
    rcases dropped_none_iff.mp hdrop with ⟨⟨oid, hoid⟩, hnot⟩
    exact hnot (hhad hoid).1
  · rintro ⟨hcand, oid, hseen, hne⟩
    rcases candidate_none_iff.mp hcand with ⟨hor, htrack⟩
    have hdisk : OnDisk vfs p := by
      rcases hor with hdisk | ⟨oid', hoid'⟩
      · exact hdisk
      · exact ⟨_, (hhad hoid').2⟩
    rcases hdisk with ⟨data, hdata⟩
    rw [seenOid_of_not_stale (hstale p) htrack hdata] at hseen
    cases hseen
    apply hne
    rw [← Tree.blobAt_eq_some_iff, heq]
    exact trackedFiles_eq_some_iff.mpr ⟨htrack, hdata⟩
  · rintro ⟨hcand, hmiss, _⟩
    rcases (candidate_none_iff.mp hcand).1 with ⟨data, hdata⟩ | ⟨oid, hoid⟩
    · exact WorkTree.not_missing_of_fileAt hdata hmiss
    · exact WorkTree.not_missing_of_fileAt (hhad hoid).2 hmiss

end Splits

/-- Storing the tracked files takes the condition on the index. -/
theorem condition_of_committedFiles
    (hread : forall p, Candidate matcher vfs prevTree none p ->
      Readable vfs index p)
    (hfull : forall p, committedFiles matcher vfs index prevTree none p =
      trackedFiles matcher vfs p) :
    (forall p, ¬ StaleEntry matcher vfs index p) ∧
    forall p, HadFile prevTree p -> Tracked matcher p -> vfs.IsDir p ->
      Replaced matcher vfs index p := by
  constructor
  · intro p hstale
    rcases hstale.seenOid with ⟨data, oid, hdata, hseen, hne⟩
    have hcand : Candidate matcher vfs prevTree none p :=
      candidate_none_iff.mpr ⟨.inl ⟨data, hdata⟩, hstale.1⟩
    have hoid := committedFiles_of_seen hcand hseen
      fun u hu => not_stored_below_file hu hdata
    rw [hfull, trackedFiles_eq_some_iff.mpr ⟨hstale.1, hdata⟩] at hoid
    exact hne (Option.some.inj hoid).symm
  · intro p hhad htrack hdir
    have hcand : Candidate matcher vfs prevTree none p :=
      candidate_none_iff.mpr ⟨.inr hhad, htrack⟩
    rcases (hread p hcand).resolve_left (WorkTree.not_missing_of_isDir hdir)
      with ⟨oid, hseen⟩
    rcases (seenOid_of_isDir hdir).mp hseen with ⟨info, hstat, hcached⟩
    refine ⟨⟨info, oid, hstat, hcached⟩, ?_⟩
    by_contra hnone
    have hoid := committedFiles_of_seen hcand hseen fun u hu =>
      not_stored_below_hadFile hu hhad fun f hb hf hdisk =>
        hnone ⟨f, hb, hf, hdisk⟩
    rw [hfull, trackedFiles_of_not_onDisk (WorkTree.fileAt_of_isDir hdir)] at hoid
    cases hoid

/-- A full commit is correct exactly under `FullCondition`. -/
theorem commit_full_correct_iff {parse : IgnoreParser} {indexStore : Bool}
    {now : Int} {info : CommitInfo} {branch : Branch}
    (hwf : (headTree branch.head).WellFormed) :
    FullCommitCorrect parse vfs branch
        (commit parse indexStore now vfs none info branch) <->
      FullCondition parse vfs (usedIndex indexStore branch)
        (headTree branch.head) := by
  unfold commit
  simp only
  constructor
  · rintro ⟨matcher, response, branch', hmatcher, hrun, hflat, _⟩
    rcases commitImpl_ok_inv now info hmatcher hwf hrun with
      ⟨hread, hwf', hfiles, _⟩
    rw [flattensTo_iff hwf'] at hflat
    exact ⟨matcher, hmatcher, condition_of_committedFiles hread
      fun p => by rw [← hfiles, hflat]⟩
  · rintro ⟨matcher, hmatcher, hstale, hdirs⟩
    have hread : forall p, Candidate matcher vfs (headTree branch.head) none p ->
        Readable vfs (usedIndex indexStore branch) p := by
      intro p hp
      by_cases hdir : vfs.IsDir p
      · rcases (hdirs p (hp.hadFile hdir) hp.2.2 hdir).1 with
          ⟨info, oid, hstat, hcached⟩
        exact .inr ⟨oid, (seenOid_of_isDir hdir).mpr ⟨info, hstat, hcached⟩⟩
      · exact readable_of_not_isDir _ hdir
    rcases commitImpl_ok now info hmatcher hwf hread with
      ⟨response, branch', hrun, hwf', hfiles, hnoop⟩
    have hfull := committedFiles_full hstale hdirs
    refine ⟨matcher, response, branch', hmatcher, hrun, ?_, ?_⟩
    · rw [flattensTo_iff hwf']
      intro p
      rw [hfiles, hfull]
    · rw [flattensTo_iff hwf, ← noEdits_full_iff hstale hfull, hnoop]

end FullCommit

/-!
# A tracked file that became a directory
-/

def nameA : Name := Name.ofString "a"

def nameB : Name := Name.ofString "b"

def nameF : Name := Name.ofString "f"

/-- An ignore parser for a working tree without an ignore file. -/
def noIgnoreFile : IgnoreParser := fun _ => .ok IgnoreMatcher.empty

/-- The directory `a` with one file `a/b`. -/
def directoryTree : WorkTree :=
  ((WorkTree.empty.mkdir 1 [nameA]).bind fun w =>
    w.write 1 [nameA, nameB] [2]).toOption.getD WorkTree.empty

def sampleInfo : CommitInfo where
  authorName := "author"
  authorEmail := "author@example.org"
  message := "message"
  time := 0

/-- A branch whose head has the file `a`. -/
def fileBranch : Branch where
  head := some (CommitId.root (.blob nameA ⟨[1]⟩ .nil) sampleInfo)
  index := none

theorem commit_full_file_to_directory_not_correct :
    ¬ FullCommitCorrect noIgnoreFile directoryTree fileBranch
      (commit noIgnoreFile false 5 directoryTree none sampleInfo
        fileBranch) := by
  rintro ⟨_, response, branch', _, hrun, _⟩
  have herr : (commit noIgnoreFile false 5 directoryTree none sampleInfo
      fileBranch).toOption.isSome = false := by decide
  rw [hrun] at herr
  cases herr

/-- The head has the files `a/b` and `f`, and the index an entry for `a/b`. -/
def cachedBranch : Branch :=
  let head := CommitId.root
    (.dir nameA (.blob nameB ⟨[2]⟩ .nil) (.blob nameF ⟨[1]⟩ .nil)) sampleInfo
  { head := some head
    index := some {
      parentOid := head
      entries := (∅ : Assoc Path IndexEntry).put [nameA, nameB] ⟨1, 1, ⟨[2]⟩⟩
      savedAtNs := some 3 } }

theorem not_staleEntry_cachedBranch (p : Path) :
    ¬ StaleEntry IgnoreMatcher.empty directoryTree
      (usedIndex true cachedBranch) p := by
  rintro ⟨_, data, info, oid, hdata, hstat, hcached, hne⟩
  by_cases hp : p = [nameA, nameB]
  · subst hp
    have hfile : directoryTree.fileAt [nameA, nameB] = some [2] := by decide
    have hinfo : directoryTree.stat [nameA, nameB] = .ok ⟨1, 1, false⟩ := by rfl
    have hoid : cachedOid (usedIndex true cachedBranch) [nameA, nameB]
        ⟨1, 1, false⟩ = some ⟨[2]⟩ := by rfl
    rw [hfile] at hdata
    rw [hinfo] at hstat
    cases hstat
    rw [hoid] at hcached
    cases hcached
    exact hne (Option.some.inj hdata)
  · have hnone : (usedIndex true cachedBranch).bind
        (fun idx => idx.entries.find p) = none := by
      simp [usedIndex, loadIndex, cachedBranch, Assoc.find_put_ne _ _ hp]
    simp [cachedOid, hnone] at hcached

theorem wellFormed_cachedBranch : (headTree cachedBranch.head).WellFormed :=
  ⟨by decide, ⟨by decide, trivial⟩, by decide, trivial⟩

theorem hadFile_cachedBranch {p : Path}
    (h : HadFile (headTree cachedBranch.head) p) :
    p = [nameA, nameB] ∨ p = [nameF] := by
  have hmem := (Tree.mem_paths wellFormed_cachedBranch).mpr h
  have hpaths : (headTree cachedBranch.head).paths =
      [[nameA, nameB], [nameF]] := by decide
  rw [hpaths] at hmem
  simpa using hmem

theorem not_isDir_cachedBranch {p : Path}
    (h : HadFile (headTree cachedBranch.head) p) : ¬ directoryTree.IsDir p := by
  rcases hadFile_cachedBranch h with rfl | rfl <;> decide

/-- The commit drops `f` and trusts the index about `a/b`. -/
theorem commit_full_correct_iff_cached :
    FullCommitCorrect noIgnoreFile directoryTree cachedBranch
      (commit noIgnoreFile true 5 directoryTree none sampleInfo
        cachedBranch) :=
  (commit_full_correct_iff wellFormed_cachedBranch).mpr
    ⟨_, rfl, not_staleEntry_cachedBranch,
      fun _ hhad _ hdir => absurd hdir (not_isDir_cachedBranch hhad)⟩

end Git
end OpenViking
