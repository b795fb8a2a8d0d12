import OpenViking.Git.FullCommit

/-!
# Commits of listed paths

A commit of a path list should splice the listed part of the working tree into
the previous head and leave every other path alone.
-/

namespace OpenViking
namespace Git

open Paths WorkTree

section Splice

variable (matcher : IgnoreMatcher) (vfs : WorkTree)
  (index : Option CommitIndex) (prevTree : Tree) (ps : List Path)

/-- The path is listed or lies below a listed path. -/
def InScope (q : Path) : Prop :=
  exists p, p ∈ ps ∧ p <+: q

/-- The path is now a directory above a file that the commit stores. -/
def Shadowed (q : Path) : Prop :=
  exists f, Below q f ∧ InScope ps f ∧ Tracked matcher f ∧ OnDisk vfs f

open Classical in
/-- The previous files with the listed part replaced by the working tree. -/
noncomputable def splicedFiles (q : Path) : Option BlobId :=
  if InScope ps q ∨ Shadowed matcher vfs ps q then
    trackedFiles matcher vfs q
  else
    prevTree.blobAt q

/--
A directory in scope that was a file and holds no file to commit.  Below a
listed path an old file that is not tracked is dropped; nothing else removes
it.
-/
def StaleFile (p : Path) : Prop :=
  InScope ps p ∧ vfs.IsDir p ∧ HadFile prevTree p ∧
    (forall f, Below p f -> Tracked matcher f -> ¬ OnDisk vfs f) ∧
    ((exists p', p' ∈ ps ∧ Below p' p) -> Tracked matcher p)

/--
A listed file that is not tracked and was a directory with the file `q`: no
other listed path looks at `q`, so nothing removes it.
-/
def StaleBelowFile (p q : Path) : Prop :=
  p ∈ ps ∧ OnDisk vfs p ∧ ¬ Tracked matcher p ∧ HadFile prevTree q ∧
    Below p q ∧ forall p', p' ∈ ps -> p' <+: q -> p' = p

/-- A listed missing path that was a directory without files. -/
def EmptyDirectory (p : Path) : Prop :=
  p ∈ ps ∧ vfs.Missing p ∧ Tracked matcher p ∧ (prevTree.get? p).isSome ∧
    forall q, p <+: q -> prevTree.blobAt q = none

/-- The condition under which a commit of listed paths is a splice. -/
def SpliceCondition : Prop :=
  (forall p, InScope ps p -> ¬ StaleEntry matcher vfs index p) ∧
  (forall p, ¬ StaleFile matcher vfs prevTree ps p) ∧
  (forall p q, ¬ StaleBelowFile matcher vfs prevTree ps p q) ∧
  ((exists p, EmptyDirectory matcher vfs prevTree ps p) ->
    exists q, (InScope ps q ∨ Shadowed matcher vfs ps q) ∧
      trackedFiles matcher vfs q ≠ prevTree.blobAt q)

end Splice

/-- A successful commit of listed paths is a splice and counts truthfully. -/
def ScopedCommitCorrect (matcher : IgnoreMatcher) (vfs : WorkTree)
    (ps : List Path) (branch : Branch) (response : CommitResponse)
    (branch' : Branch) : Prop :=
  FlattensTo (headTree branch'.head)
    (splicedFiles matcher vfs (headTree branch.head) ps) ∧
  ((branch'.head = branch.head ∧ exists ignored,
      response = .noop branch.head ignored) <->
    FlattensTo (headTree branch'.head) (headTree branch.head).blobAt)

section Scoped

variable {matcher : IgnoreMatcher} {vfs : WorkTree}
  {index : Option CommitIndex} {prevTree : Tree} {ps : List Path}

theorem Scans.isPrefix {p q : Path} (h : Scans vfs p q) : p <+: q := by
  rcases h with ⟨_, hb⟩ | ⟨_, hpre⟩ | ⟨_, rfl⟩
  · exact hb.isPrefix
  · exact hpre
  · exact List.prefix_rfl

variable {q : Path}

theorem inScope_of_covered (h : Covered vfs (some ps) q) :
    InScope ps q := by
  rcases h with ⟨p, hp, hscan⟩
  exact ⟨p, hp, hscan.isPrefix⟩

theorem inScope_of_candidate
    (h : Candidate matcher vfs prevTree (some ps) q) : InScope ps q :=
  inScope_of_covered h.2.1

theorem InScope.isPrefix {p q : Path} (h : InScope ps p) (hpre : p <+: q) :
    InScope ps q := by
  rcases h with ⟨r, hr, hrp⟩
  exact ⟨r, hr, hrp.trans hpre⟩

theorem scans_of_exists {p q : Path} (hpre : p <+: q) (hq : ¬ vfs.Missing q)
    (h : p = q -> ¬ vfs.IsDir q) : Scans vfs p q := by
  rcases prefix_iff_eq_or_below.mp hpre with rfl | hb
  · exact scans_self (h rfl)
  · exact .inl ⟨isDir_of_below hq hb, hb⟩

theorem candidate_of_onDisk (prevTree : Tree)
    (hscope : InScope ps q)
    (htrack : Tracked matcher q) (hdisk : OnDisk vfs q) :
    Candidate matcher vfs prevTree (some ps) q := by
  rcases hscope with ⟨p, hp, hpre⟩
  rcases hdisk with ⟨data, hdata⟩
  exact ⟨.inr (.inl ⟨data, hdata⟩),
    ⟨p, hp, scans_of_exists hpre (not_missing_of_fileAt hdata)
      (fun _ => not_isDir_of_fileAt hdata)⟩, htrack⟩

/-!
# Paths outside the scope
-/

/-- Above a stored path that is no file on disk there was no old file. -/
theorem Stored.shadowed {u : Path}
    (hu : Stored matcher vfs index prevTree (some ps) u)
    (hb : Below q u) (hhad : HadFile prevTree q) :
    Shadowed matcher vfs ps q := by
  rcases vfs.node?_cases u with hdisk | hdir | hmiss
  · exact ⟨u, hb, inScope_of_candidate hu.1, hu.1.2.2, hdisk⟩
  · exact absurd hb (hhad.not_below (hu.1.hadFile hdir))
  · exact absurd hmiss hu.not_missing

theorem committedFiles_out_of_scope (hscope : ¬ InScope ps q)
    (hshadow : ¬ Shadowed matcher vfs ps q) :
    committedFiles matcher vfs index prevTree (some ps) q =
      prevTree.blobAt q := by
  cases hprev : prevTree.blobAt q with
  | some oid =>
    rw [Untouched.committedFiles, hprev]
    constructor
    · exact fun h => hscope (inScope_of_covered h.2.1)
    · exact fun h => hscope (inScope_of_candidate h.1)
    · rintro u hu (hb | hb)
      · exact hscope ((inScope_of_candidate hu.1).isPrefix hb.isPrefix)
      · exact hshadow (hu.shadowed hb ⟨oid, hprev⟩)
    · exact fun r hr hpre =>
        hscope ((inScope_of_candidate hr.1).isPrefix hpre)
  | none =>
    rw [Option.eq_none_iff_forall_ne_some]
    intro oid hoid
    rcases (committedFiles_eq_some hoid).2 with hq | ⟨⟨oid', hoid'⟩, _⟩
    · exact hscope (inScope_of_candidate hq.1)
    · rw [hprev] at hoid'
      cases hoid'

/-!
# Paths in scope
-/

/-- In a successful call, an old file that survives in scope is stale. -/
theorem stale_of_survives (hscope : InScope ps q)
    (hfile : ¬ (Tracked matcher q ∧ OnDisk vfs q))
    (hhad : HadFile prevTree q)
    (huntouched : Untouched matcher vfs index prevTree (some ps) q) :
    StaleFile matcher vfs prevTree ps q ∨
      exists p, StaleBelowFile matcher vfs prevTree ps p q := by
  have htrack : Covered vfs (some ps) q -> Tracked matcher q := by
    intro hcov
    by_contra hnot
    exact huntouched.kept ⟨hhad, hcov, hnot⟩
  have hcandidate : Covered vfs (some ps) q ->
      Candidate matcher vfs prevTree (some ps) q :=
    fun hcov => ⟨.inr (.inr hhad), hcov, htrack hcov⟩
  rcases hscope with ⟨p, hp, hpre⟩
  rcases vfs.node?_cases q with hdisk | hdir | hmiss
  · -- A file on disk is looked at, and then it is tracked.
    have hcov : Covered vfs (some ps) q := by
      rcases hdisk with ⟨data, hdata⟩
      exact ⟨p, hp, scans_of_exists hpre (not_missing_of_fileAt hdata)
        (fun _ => not_isDir_of_fileAt hdata)⟩
    exact absurd ⟨htrack hcov, hdisk⟩ hfile
  · -- Files below a directory would replace the old file.
    left
    refine ⟨⟨p, hp, hpre⟩, hdir, hhad, ?_, ?_⟩
    · intro f hb ht hdisk
      have hscope : InScope ps f := ⟨p, hp, hpre.trans hb.isPrefix⟩
      exact huntouched.unrelated f (stored_of_hadFile_above hhad hb
        (candidate_of_onDisk _ hscope ht hdisk) hdisk) (.inr hb)
    · rintro ⟨p', hp', hb⟩
      exact htrack ⟨p', hp', scans_of_exists hb.isPrefix
        (not_missing_of_isDir hdir) (fun heq => absurd heq hb.ne)⟩
  · -- A missing path is not looked at, so a listed file is above it.
    right
    have hcov : ¬ Covered vfs (some ps) q := by
      intro h
      apply huntouched.notDeleted q ⟨hcandidate h, hmiss, ?_⟩ List.prefix_rfl
      rcases hhad with ⟨oid, hoid⟩
      rw [Tree.blobAt_eq_some_iff.mp hoid]
      rfl
    have habove : forall p', p' ∈ ps -> p' <+: q ->
        OnDisk vfs p' ∧ Below p' q := by
      intro p' hp' hpre'
      rcases vfs.node?_cases p' with hf | hd | hm
      · refine ⟨hf, hpre', ?_⟩
        rintro rfl
        rcases hf with ⟨data, hdata⟩
        exact not_missing_of_fileAt hdata hmiss
      · exfalso
        rcases prefix_iff_eq_or_below.mp hpre' with rfl | hb
        · exact not_missing_of_isDir hd hmiss
        · exact hcov ⟨p', hp', .inl ⟨hd, hb⟩⟩
      · exact absurd ⟨p', hp', .inr (.inl ⟨hm, hpre'⟩)⟩ hcov
    rcases habove p hp hpre with ⟨hpdisk, hpb⟩
    refine ⟨p, hp, hpdisk, ?_, hhad, hpb, ?_⟩
    · intro ht
      rcases hpdisk with ⟨data, hdata⟩
      have hscope' : InScope ps p := ⟨p, hp, List.prefix_rfl⟩
      rcases seenOid_of_fileAt index hdata with ⟨info, _, hseen⟩
      apply huntouched.unrelated p ⟨candidate_of_onDisk _ hscope' ht
        ⟨data, hdata⟩, _, hseen, ?_⟩ (.inl hpb)
      intro hget
      exact HadFile.not_below ⟨_, Tree.blobAt_eq_some_iff.mpr hget⟩ hhad hpb
    · intro p' hp' hpre'
      rcases habove p' hp' hpre' with ⟨⟨b, hb⟩, _⟩
      rcases hpdisk with ⟨a, ha⟩
      rcases prefix_or_below_of_prefix hpre' hpre with h | h
      · rcases prefix_iff_eq_or_below.mp h with h | h
        · exact h
        · exact absurd h (not_below_of_fileAt hb ha)
      · exact absurd h (not_below_of_fileAt ha hb)

/-- Without stale entries and files a successful call splices. -/
theorem committedFiles_eq_splicedFiles
    (hentry : forall p, InScope ps p -> ¬ StaleEntry matcher vfs index p)
    (hstale : forall p, ¬ StaleFile matcher vfs prevTree ps p)
    (hbelow : forall p q, ¬ StaleBelowFile matcher vfs prevTree ps p q)
    (q : Path) :
    committedFiles matcher vfs index prevTree (some ps) q =
      splicedFiles matcher vfs prevTree ps q := by
  unfold splicedFiles
  by_cases hin : InScope ps q ∨ Shadowed matcher vfs ps q
  · rw [if_pos hin]
    by_cases hfile : Tracked matcher q ∧ OnDisk vfs q ∧ InScope ps q
    · rcases hfile with ⟨htrack, ⟨data, hdata⟩, hscope⟩
      rw [trackedFiles_eq_some_iff.mpr ⟨htrack, hdata⟩]
      apply committedFiles_of_seen
      · exact candidate_of_onDisk _ hscope htrack ⟨data, hdata⟩
      · exact seenOid_of_not_stale (hentry q hscope) htrack hdata
      · exact fun u hu => not_stored_below_file hu hdata
    have hnot : ¬ (Tracked matcher q ∧ OnDisk vfs q) := by
      rintro ⟨htrack, data, hdata⟩
      rcases hin with hscope | ⟨f, hb, _, _, data', hdata'⟩
      · exact hfile ⟨htrack, ⟨data, hdata⟩, hscope⟩
      · exact not_below_of_fileAt hdata hdata' hb
    rw [trackedFiles_none_of_not hnot, Option.eq_none_iff_forall_ne_some]
    intro oid hoid
    rcases committedFiles_eq_some hoid with ⟨hnobelow, hcases⟩
    have hnofile : HadFile prevTree q ->
        forall f, Below q f -> InScope ps f -> Tracked matcher f ->
          ¬ OnDisk vfs f := fun hhad f hb hf ht hdisk =>
      hnobelow f (stored_of_hadFile_above hhad hb
        (candidate_of_onDisk _ hf ht hdisk) hdisk) hb
    rcases hcases with hq | ⟨hhad, huntouched⟩
    · have hscope := inScope_of_candidate hq.1
      rcases vfs.node?_cases q with hdisk | hdir | hmiss
      · exact hnot ⟨hq.1.2.2, hdisk⟩
      · have hhad := hq.1.hadFile hdir
        exact hstale q ⟨hscope, hdir, hhad, fun f hb =>
          hnofile hhad f hb (hscope.isPrefix hb.isPrefix), fun _ => hq.1.2.2⟩
      · exact hq.not_missing hmiss
    · by_cases hscope : InScope ps q
      · rcases stale_of_survives hscope hnot hhad huntouched with h | ⟨p, h⟩
        · exact hstale q h
        · exact hbelow p q h
      · rcases hin.resolve_left hscope with ⟨f, hb, hf, htrack, hdisk⟩
        exact hnofile hhad f hb hf htrack hdisk
  · rw [not_or] at hin
    rw [if_neg (by simp [hin]), committedFiles_out_of_scope hin.1 hin.2]

/-- A stale entry of a file in scope puts its old bytes into the new head. -/
theorem staleEntry_stored {p : Path} (hscope : InScope ps p)
    (h : StaleEntry matcher vfs index p) :
    committedFiles matcher vfs index prevTree (some ps) p ≠
      splicedFiles matcher vfs prevTree ps p := by
  rcases h.seenOid with ⟨data, oid, hdata, hseen, hne⟩
  rw [splicedFiles, if_pos (.inl hscope),
    trackedFiles_eq_some_iff.mpr ⟨h.1, hdata⟩, committedFiles_of_seen
      (candidate_of_onDisk _ hscope h.1 ⟨data, hdata⟩) hseen
      fun u hu => not_stored_below_file hu hdata]
  exact fun heq => hne (Option.some.inj heq)

/-- A stale file is left in the new head, or stored again. -/
theorem staleFile_survives {p : Path}
    (hread : forall p, Candidate matcher vfs prevTree (some ps) p ->
      Readable vfs index p)
    (h : StaleFile matcher vfs prevTree ps p) :
    committedFiles matcher vfs index prevTree (some ps) p ≠
      splicedFiles matcher vfs prevTree ps p := by
  rcases h with ⟨hscope, hdir, hhad, hnofile, habove⟩
  have hexists := not_missing_of_isDir hdir
  rw [splicedFiles, if_pos (.inl hscope),
    trackedFiles_of_not_onDisk (fileAt_of_isDir hdir)]
  by_cases hcand : Candidate matcher vfs prevTree (some ps) p
  · rcases (hread p hcand).resolve_left hexists with ⟨oid, hseen⟩
    rw [committedFiles_of_seen hcand hseen
      fun u hu => not_stored_below_hadFile hu hhad hnofile]
    simp
  have huntouched : Untouched matcher vfs index prevTree (some ps) p := by
    constructor
    · rintro ⟨_, ⟨p', hp', hscan⟩, hnot⟩
      rcases hscan with ⟨_, hb⟩ | ⟨hmiss, hpre⟩ | ⟨⟨data, hdata⟩, rfl⟩
      · exact hnot (habove ⟨p', hp', hb⟩)
      · exact not_prefix_of_missing hmiss hexists hpre
      · exact not_isDir_of_fileAt hdata hdir
    · exact fun h => hcand h.1
    · rintro u hu (hb | hb)
      · exact not_stored_above_hadFile hu hhad hexists hb
      · exact not_stored_below_hadFile hu hhad hnofile hb
    · exact fun r hr => not_prefix_of_missing hr.2.1 hexists
  rcases hhad with ⟨oid, hoid⟩
  rw [huntouched.committedFiles, hoid]
  simp

/-- A stale file below a listed file is left in the new head. -/
theorem staleBelowFile_survives {p q : Path}
    (h : StaleBelowFile matcher vfs prevTree ps p q) :
    committedFiles matcher vfs index prevTree (some ps) q ≠
      splicedFiles matcher vfs prevTree ps q := by
  rcases h with ⟨hp, ⟨data, hdata⟩, hnotrack, hhad, hb, honly⟩
  have hmiss : vfs.Missing q :=
    missing_below (not_isDir_of_fileAt hdata) hb
  have hnotfile := fileAt_of_missing hmiss
  -- Only the listed file `p` is above `q`, and it looks at itself alone.
  have hscans : forall p' r, p' ∈ ps -> Scans vfs p' r -> r <+: q -> r = p := by
    intro p' r hp' hscan hpre
    have hpp := honly p' hp' (hscan.isPrefix.trans hpre)
    subst hpp
    rcases hscan with ⟨hd, _⟩ | ⟨hm, _⟩ | ⟨_, rfl⟩
    · exact absurd hd (not_isDir_of_fileAt hdata)
    · exact absurd hm (not_missing_of_fileAt hdata)
    · rfl
  have huntouched : Untouched matcher vfs index prevTree (some ps) q := by
    constructor
    · rintro ⟨_, ⟨p', hp', hscan⟩, _⟩
      exact hb.ne (hscans p' q hp' hscan List.prefix_rfl).symm
    · exact fun hq => hq.not_missing hmiss
    · rintro u hu (hub | hub)
      · rcases hu.1.2.1 with ⟨p', hp', hscan⟩
        have hup := hscans p' u hp' hscan hub.isPrefix
        subst hup
        exact hnotrack hu.1.2.2
      · exact not_missing_of_isDir (isDir_of_below hu.not_missing hub) hmiss
    · rintro r ⟨hcand, _, _⟩ hpre
      rcases hcand.2.1 with ⟨p', hp', hscan⟩
      have hrp := hscans p' r hp' hscan hpre
      subst hrp
      exact hnotrack hcand.2.2
  rcases hhad with ⟨oid, hoid⟩
  have hscope : InScope ps q := ⟨p, hp, hb.isPrefix⟩
  rw [huntouched.committedFiles, splicedFiles, hoid, if_pos (.inl hscope),
    trackedFiles_of_not_onDisk hnotfile]
  simp

/-!
# Counting edits
-/

/-- An edit that leaves the file map alone deletes an empty directory. -/
theorem emptyDirectory_of_unchanged
    (hentry : forall p, InScope ps p -> ¬ StaleEntry matcher vfs index p)
    (hsplice : forall q, committedFiles matcher vfs index prevTree (some ps) q =
      splicedFiles matcher vfs prevTree ps q)
    (hsame : forall q, committedFiles matcher vfs index prevTree (some ps) q =
      prevTree.blobAt q)
    (hedits : ¬ NoEdits matcher vfs index prevTree (some ps)) :
    exists p, EmptyDirectory matcher vfs prevTree ps p := by
  have hscoped : forall q, InScope ps q ->
      prevTree.blobAt q = trackedFiles matcher vfs q := by
    intro q hq
    rw [← hsame, hsplice, splicedFiles, if_pos (.inl hq)]
  by_contra hempty
  apply hedits
  intro q
  refine ⟨?_, ?_, ?_⟩
  · rintro ⟨⟨oid, hoid⟩, hcov, hnot⟩
    rw [hscoped q (inScope_of_covered hcov),
      trackedFiles_of_not_tracked hnot] at hoid
    cases hoid
  · rintro ⟨hcand, oid, hseen, hne⟩
    have hscope := inScope_of_candidate hcand
    have htracked := hscoped q hscope
    rcases vfs.node?_cases q with ⟨data, hdata⟩ | hdir | hmiss
    · rw [seenOid_of_not_stale (hentry q hscope) hcand.2.2 hdata] at hseen
      cases hseen
      rw [trackedFiles_eq_some_iff.mpr ⟨hcand.2.2, hdata⟩] at htracked
      exact hne (Tree.blobAt_eq_some_iff.mp htracked)
    · rcases hcand.hadFile hdir with ⟨oid', hoid'⟩
      rw [trackedFiles_of_not_onDisk (fileAt_of_isDir hdir), hoid'] at htracked
      cases htracked
    · exact not_missing_of_seenOid hseen hmiss
  · rintro ⟨hcand, hmiss, hsome⟩
    have hnone : forall r, q <+: r -> prevTree.blobAt r = none := by
      intro r hpre
      rw [hscoped r ((inScope_of_candidate hcand).isPrefix hpre)]
      apply trackedFiles_of_not_onDisk
      cases hfile : vfs.fileAt r with
      | none => rfl
      | some data =>
        exact absurd hpre
          (not_prefix_of_missing hmiss (not_missing_of_fileAt hfile))
    rcases hcand.1 with hleaf | ⟨data, hdata⟩ | ⟨oid, hoid⟩
    · exact hempty ⟨q, hleaf.1, hmiss, hcand.2.2, hsome, hnone⟩
    · exact not_missing_of_fileAt hdata hmiss
    · rw [hnone q List.prefix_rfl] at hoid
      cases hoid

theorem not_noEdits_of_emptyDirectory {p : Path}
    (h : EmptyDirectory matcher vfs prevTree ps p) :
    ¬ NoEdits matcher vfs index prevTree (some ps) := by
  rcases h with ⟨hp, hmiss, htrack, hsome, _⟩
  intro hnone
  have hdir : ¬ vfs.IsDir p := fun hdir =>
    not_missing_of_isDir hdir hmiss
  exact (hnone p).2.2 ⟨⟨.inl ⟨hp, hdir⟩, ⟨p, hp, scans_self hdir⟩, htrack⟩,
    hmiss, hsome⟩

/--
A successful commit of listed paths is a correct splice exactly under
`SpliceCondition`.
-/
theorem commit_scoped_correct_iff {parse : IgnoreParser} {indexStore : Bool}
    {now : Int} {info : CommitInfo} {branch branch' : Branch}
    {response : CommitResponse} {paths : List Str}
    (hwf : (headTree branch.head).WellFormed)
    (hpaths : paths.mapM validateRelativePath = .ok ps)
    (hrun : commit parse indexStore now vfs (some paths) info branch =
      .ok (response, branch')) :
    exists matcher, loadIgnoreMatcher parse vfs = .ok matcher ∧
      (ScopedCommitCorrect matcher vfs ps branch response branch' <->
        SpliceCondition matcher vfs (usedIndex indexStore branch)
          (headTree branch.head) ps) := by
  unfold commit at hrun
  simp only [hpaths, bind, Except.bind] at hrun
  rcases loadIgnoreMatcher_of_commitImpl hrun with ⟨matcher, hmatcher⟩
  refine ⟨matcher, hmatcher, ?_⟩
  rcases commitImpl_ok_inv now info hmatcher hwf hrun with
    ⟨hread, hwf', hfiles, hnoop⟩
  unfold ScopedCommitCorrect SpliceCondition
  rw [flattensTo_iff hwf', flattensTo_iff hwf', hnoop]
  simp only [hfiles]
  constructor
  · rintro ⟨hsplice, hcount⟩
    refine ⟨?_, ?_, ?_, ?_⟩
    · intro p hscope hp
      exact staleEntry_stored hscope hp (hsplice p)
    · intro p hp
      exact staleFile_survives hread hp (hsplice p)
    · intro p q hq
      exact staleBelowFile_survives hq (hsplice q)
    · rintro ⟨p, hp⟩
      by_contra hno
      apply not_noEdits_of_emptyDirectory hp
      apply hcount.mpr
      intro q
      rw [hsplice, splicedFiles]
      split
      · rename_i hin
        by_contra hne
        exact hno ⟨q, hin, hne⟩
      · rfl
  · rintro ⟨hentry, hstale, hbelow, hempty⟩
    have hsplice := committedFiles_eq_splicedFiles hentry hstale hbelow
    refine ⟨hsplice, committedFiles_of_noEdits, ?_⟩
    intro hsame
    by_contra hedits
    rcases hempty (emptyDirectory_of_unchanged hentry hsplice hsame hedits) with
      ⟨q, hin, hne⟩
    apply hne
    rw [← hsame, hsplice, splicedFiles, if_pos hin]

end Scoped

/-!
# A listed file that became an empty directory
-/

private def listedName : Name := nameF

private def emptyDirTree : WorkTree :=
  (empty.mkdir 1 [listedName]).toOption.getD empty

/-- A branch whose head has the file `f`. -/
def scopedBranch : Branch where
  head := some (CommitId.root (.blob listedName ⟨[1]⟩ .nil) sampleInfo)
  index := none

/-- The commit reports a no-op, and the head keeps the file `f`. -/
theorem commit_scoped_file_to_directory_not_correct :
    exists response branch',
      commit noIgnoreFile false 5 emptyDirTree (some ["f".toList]) sampleInfo
        scopedBranch = .ok (response, branch') ∧
      ¬ ScopedCommitCorrect IgnoreMatcher.empty emptyDirTree [[listedName]]
        scopedBranch response branch' := by
  refine ⟨.noop scopedBranch.head 0, scopedBranch, rfl, ?_⟩
  rintro ⟨hflat, _⟩
  have hmem : ([listedName], (⟨[1]⟩ : BlobId)) ∈
      (headTree scopedBranch.head).flatten := by decide
  have hspliced := (hflat _ _).mp hmem
  rw [splicedFiles, if_pos (.inl ⟨[listedName], by simp, List.prefix_rfl⟩)]
    at hspliced
  have hnone : trackedFiles IgnoreMatcher.empty emptyDirTree [listedName] =
      none := by decide
  rw [hnone] at hspliced
  cases hspliced

/-- The commit deletes the listed `f` and looks at `a/b` through the index. -/
theorem commit_scoped_correct_iff_cached :
    exists response branch',
      commit noIgnoreFile true 5 directoryTree
          (some ["f".toList, "a".toList]) sampleInfo cachedBranch =
        .ok (response, branch') ∧
      ScopedCommitCorrect IgnoreMatcher.empty directoryTree
        [[nameF], [nameA]] cachedBranch response branch' := by
  cases hrun : commit noIgnoreFile true 5 directoryTree
      (some ["f".toList, "a".toList]) sampleInfo cachedBranch with
  | error e =>
    have hok : (commit noIgnoreFile true 5 directoryTree
        (some ["f".toList, "a".toList]) sampleInfo
          cachedBranch).toOption.isSome = true := by decide
    rw [hrun] at hok
    cases hok
  | ok result =>
    refine ⟨result.1, result.2, rfl, ?_⟩
    rcases commit_scoped_correct_iff wellFormed_cachedBranch rfl hrun with
      ⟨matcher, hmatcher, hiff⟩
    cases hmatcher
    have hold : exists data,
        directoryTree.fileAt [nameA, nameB] = some data := ⟨[2], by decide⟩
    apply hiff.mpr
    refine ⟨fun p _ => not_staleEntry_cachedBranch p, ?_, ?_, ?_⟩
    · exact fun p hp => not_isDir_cachedBranch hp.2.2.1 hp.2.1
    · rintro p q ⟨_, ⟨data, hdata⟩, _, hhad, hb, _⟩
      rcases hadFile_cachedBranch hhad with rfl | rfl
      · rcases hold with ⟨data', hdata'⟩
        exact not_below_of_fileAt hdata hdata' hb
      · exact ne_nil_of_fileAt hdata
          (List.eq_nil_of_length_eq_zero (Nat.lt_one_iff.mp hb.length_lt))
    · rintro ⟨p, hp, hmiss, _, _, hnone⟩
      have hpf : p = [nameF] := by
        rcases List.mem_pair.mp hp with rfl | rfl
        · rfl
        · exact absurd hmiss (by decide)
      have hblob := hnone p List.prefix_rfl
      rw [hpf] at hblob
      exact absurd hblob (by decide)

end Git
end OpenViking
