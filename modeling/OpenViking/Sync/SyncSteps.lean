import OpenViking.Sync.SyncOutcome

/-!
# What a round of a pass does to its name
-/

namespace OpenViking
namespace TreeSync

open Paths List

section Names

variable {d : Path} {n : Name}

theorem visible_concat :
    Visible (d ++ [n]) <-> Visible d ∧ hidden n = false := by
  unfold Visible
  constructor
  · intro h
    exact ⟨fun m hm => h m (mem_append_left _ hm), h n (by simp)⟩
  · intro h m hm
    rcases mem_append.mp hm with hm | hm
    · exact h.1 m hm
    · rw [mem_singleton.mp hm]
      exact h.2

variable {t : Tree}

theorem mem_visibleNames {test : Entry Bytes -> Bool} :
    n ∈ visibleNames t d test <->
      hidden n = false ∧ exists e, t.find (d ++ [n]) = some e ∧
        test e = true := by
  rw [visibleNames, mem_map]
  constructor
  · intro h
    rcases h with ⟨⟨m, e⟩, hmem, rfl⟩
    rcases mem_filter.mp hmem with ⟨hchild, htest⟩
    rw [Bool.and_eq_true] at htest
    exact ⟨by simpa using htest.1, e, FileTree.mem_children.mp hchild, htest.2⟩
  · intro h
    rcases h with ⟨hhidden, e, hfind, htest⟩
    refine ⟨(n, e), mem_filter.mpr ⟨FileTree.mem_children.mpr hfind, ?_⟩,
      rfl⟩
    rw [hhidden, htest]
    rfl

theorem mem_fileNames : n ∈ visibleNames t d isFile <->
      hidden n = false ∧ exists a, t.find (d ++ [n]) = some (.file a) := by
  rw [mem_visibleNames]
  constructor
  · intro h
    rcases h with ⟨hhidden, e, hfind, htest⟩
    cases e with
    | file a => exact ⟨hhidden, a, hfind⟩
    | dir => cases htest
  · intro h
    rcases h with ⟨hhidden, a, hfind⟩
    exact ⟨hhidden, .file a, hfind, rfl⟩

theorem mem_dirNames : n ∈ visibleNames t d (fun e => !isFile e) <->
      hidden n = false ∧ t.find (d ++ [n]) = some .dir := by
  rw [mem_visibleNames]
  constructor
  · intro h
    rcases h with ⟨hhidden, e, hfind, htest⟩
    cases e with
    | file a => cases htest
    | dir => exact ⟨hhidden, hfind⟩
  · intro h
    exact ⟨h.1, .dir, h.2, rfl⟩

theorem names_of_file {a : Bytes} (hn : hidden n = false)
    (h : t.find (d ++ [n]) = some (.file a)) :
    n ∈ visibleNames t d isFile ∧ n ∉ visibleNames t d fun e => !isFile e := by
  rw [mem_fileNames, mem_dirNames, h]
  exact ⟨⟨hn, a, rfl⟩, by simp⟩

theorem names_of_dir (hn : hidden n = false) (h : t.find (d ++ [n]) = some .dir) :
    n ∉ visibleNames t d isFile ∧ n ∈ visibleNames t d fun e => !isFile e := by
  rw [mem_fileNames, mem_dirNames, h]
  exact ⟨by simp, hn, rfl⟩

theorem names_of_none (h : t.find (d ++ [n]) = none) :
    n ∉ visibleNames t d isFile ∧ n ∉ visibleNames t d fun e => !isFile e := by
  rw [mem_fileNames, mem_dirNames, h]
  simp

end Names

section Rounds

variable {call : Call} {source target : FileTree.Rooted Bytes}

variable {p : Path} {st : State}

theorem addEntry_arrived {c : Change} {e : Entry Bytes}
    (hsource : forall q, p <+: q -> st.source.find q = source.tree.find q)
    (hs : source.tree.find p = some e)
    (hfree : forall q, p <+: q -> st.target.find q = none) :
    Arrived source.tree p (addEntry call c p st) <->
      Delivered call source.tree p := by
  have hp := hfree p prefix_rfl
  have hiff := mv_arrived_iff call (st.record c p) hsource hs
    (fun a ha q hq => source.none_below (by rw [hs, ha]; simp) hq)
    (fun hne => absurd hp hne)
    (fun q hq => hfree q hq.isPrefix)
  rw [addEntry, hiff, record_target, hp]
  simp

theorem addEntry_marked {c : Change} {cs : List Change} (h : Marked st p cs) :
    Marked (addEntry call c p st) p (c :: cs) :=
  (h.record c).of_diff_eq (mv_diff call p _)

theorem addEntry_quiet {c : Change}
    (h : QuietBelow p st) : QuietBelow p (addEntry call c p st) :=
  (h.record c).of_diff_eq (mv_diff call p _)

theorem addEntry_target (call : Call) (c : Change) (p : Path) (st : State) (q : Path) :
    (addEntry call c p st).target.find q = st.target.find q ∨
      (addEntry call c p st).target.find q = st.source.find q ∨
        (addEntry call c p st).target.find q = none :=
  mv_target call p (st.record c p) q

theorem dropFile_quiet (call : Call) (site : RmCall)
    (h : QuietBelow p st) : QuietBelow p (dropFile call site p st).2 := by
  have hdiff := rm_diff call site p st
  unfold dropFile
  split
  next st' heq =>
    rw [heq] at hdiff
    exact (h.of_diff_eq hdiff).record .deletedFile
  next st' heq =>
    rw [heq] at hdiff
    exact h.of_diff_eq hdiff

theorem dropFile_done {site : RmCall} (st : State)
    (h : Removes call site p) :
    exists st', dropFile call site p st = (true, st') ∧
      st'.source = st.source ∧
      (forall cs, Marked st p cs -> Marked st' p (.deletedFile :: cs)) ∧
      forall q, p <+: q -> st'.target.find q = none := by
  have hdone := rm_done st h
  have hsource := rm_source call site p st
  have hdiff := rm_diff call site p st
  unfold dropFile
  generalize rm call site p st = r at hdone hsource hdiff
  rcases r with ⟨b, st'⟩
  cases hdone.1
  refine ⟨_, rfl, hsource, ?_, hdone.2⟩
  intro cs hcs
  exact (hcs.of_diff_eq hdiff).record .deletedFile

theorem dropFile_failed {site : RmCall} (st : State)
    (h : ¬ Removes call site p) :
    exists st', dropFile call site p st = (false, st') ∧
      st'.source = st.source ∧ st'.diff = st.diff ∧
      st'.target.find p = st.target.find p ∧
      forall q, st.target.find q = none -> st'.target.find q = none := by
  have hfailed := rm_failed st h
  have hsource := rm_source call site p st
  have hdiff := rm_diff call site p st
  unfold dropFile
  generalize rm call site p st = r at hfailed hsource hdiff
  rcases r with ⟨b, st'⟩
  cases hfailed.1
  exact ⟨_, rfl, hsource, hdiff, hfailed.2⟩

theorem dropDir_done (st : State)
    (h : Removes call .leftoverDir p) :
    (forall cs, Marked st p cs ->
        Marked (dropDir call p st) p (.deletedDir :: cs)) ∧
      forall q, p <+: q -> (dropDir call p st).target.find q = none := by
  have hdone := rm_done st h
  have hdiff := rm_diff call .leftoverDir p st
  unfold dropDir
  generalize rm call .leftoverDir p st = r at hdone hdiff
  rcases r with ⟨b, st'⟩
  cases hdone.1
  refine ⟨?_, hdone.2⟩
  intro cs hcs
  exact (hcs.of_diff_eq hdiff).record .deletedDir

theorem dropDir_failed (st : State)
    (h : ¬ Removes call .leftoverDir p) :
    (dropDir call p st).diff = st.diff ∧
      (dropDir call p st).target.find p = st.target.find p := by
  have hfailed := rm_failed st h
  have hdiff := rm_diff call .leftoverDir p st
  unfold dropDir
  generalize rm call .leftoverDir p st = r at hfailed hdiff
  rcases r with ⟨b, st'⟩
  cases hfailed.1
  exact ⟨hdiff, hfailed.2.1⟩

theorem dropDir_quiet (h : QuietBelow p st) :
    QuietBelow p (dropDir call p st) := by
  have hdiff := rm_diff call .leftoverDir p st
  unfold dropDir
  split
  next st' heq =>
    rw [heq] at hdiff
    exact (h.of_diff_eq hdiff).record .deletedDir
  next st' heq =>
    rw [heq] at hdiff
    exact h.of_diff_eq hdiff

/-!
# The pass over the files
-/

/-- The pass over the files has not come to a name yet. -/
def Waiting (source target : Tree) (d : Path) (n : Name) (lv : Level) : Prop :=
  SameUnder (d ++ [n]) (start source target) lv.st ∧
    (n ∈ lv.targetFiles <-> n ∈ visibleNames target d isFile) ∧
    (n ∈ lv.targetDirs <->
      n ∈ visibleNames target d fun e => !isFile e)

theorem Waiting.marked {d : Path} {n : Name} {lv : Level}
    (h : Waiting source.tree target.tree d n lv) : Marked lv.st (d ++ [n]) [] :=
  marked_of_sameAt_start (h.1 _ prefix_rfl)

/-- What the pass over the files leaves of a name to the pass over the
directories. -/
inductive AfterFiles (call : Call) (source target : Tree) (d : Path)
    (n : Name) (lv : Level) : Prop
  | waiting (h : Waiting source target d n lv)
      (hno : hidden n = false ->
        (forall a, source.find (d ++ [n]) ≠ some (.file a)) ∧
        forall b, target.find (d ++ [n]) ≠ some (.file b))
  | settled (h : Settled call source target (d ++ [n]) lv.st)
      (quiet : QuietBelow (d ++ [n]) lv.st)
      (hroot : n ∉ visibleNames source d fun e => !isFile e)
      (htarget : n ∉ lv.targetDirs)
  | stuck (hn : hidden n = false) (a : Bytes)
      (hs : source.find (d ++ [n]) = some (.file a))
      (ht : target.find (d ++ [n]) = some .dir)
      (failed : ¬ Removes call .dirForFile (d ++ [n]))
      (marked : Marked lv.st (d ++ [n]) [.addedFile])
      (quiet : QuietBelow (d ++ [n]) lv.st)
      (kept : lv.st.target.find (d ++ [n]) = some .dir)
      (htarget : n ∈ lv.targetDirs)
  | cleared (hn : hidden n = false) (b : Bytes)
      (hs : source.find (d ++ [n]) = some .dir)
      (ht : target.find (d ++ [n]) = some (.file b))
      (clear : Removes call .fileForDir (d ++ [n]))
      (marked : Marked lv.st (d ++ [n]) [.deletedFile])
      (quiet : QuietBelow (d ++ [n]) lv.st)
      (same : forall q, d ++ [n] <+: q ->
        lv.st.source.find q = source.find q)
      (gone : forall q, d ++ [n] <+: q -> lv.st.target.find q = none)
      (hfiles : n ∉ lv.targetFiles) (htarget : n ∉ lv.targetDirs)
  | blocked (hn : hidden n = false) (b : Bytes)
      (hs : source.find (d ++ [n]) = some .dir)
      (ht : target.find (d ++ [n]) = some (.file b))
      (failed : ¬ Removes call .fileForDir (d ++ [n]))
      (marked : Marked lv.st (d ++ [n]) [])
      (quiet : QuietBelow (d ++ [n]) lv.st)
      (same : forall q, d ++ [n] <+: q ->
        lv.st.source.find q = source.find q)
      (kept : lv.st.target.find (d ++ [n]) = some (.file b))
      (below : forall q, Below (d ++ [n]) q -> lv.st.target.find q = none)
      (hfiles : n ∈ lv.targetFiles)

/-- The pass over the files, with the listings of the two trees. -/
def filePass (call : Call) (source : Tree) (d : Path) (lv : Level)
    (n : Name) : Level :=
  fileStep call d (visibleNames source d isFile)
    (visibleNames source d fun e => !isFile e) lv n

private theorem fresh_below {e : Option (Entry Bytes)}
    (h : SameUnder p (start source.tree target.tree) st)
    (ht : target.tree.find p = e) (hne : e ≠ some .dir) :
    forall q, Below p q -> st.target.find q = none := by
  intro q hq
  rw [(h q hq.isPrefix).2.1]
  exact target.none_below (by rw [ht]; exact hne) hq

variable {lv : Level}

theorem filePass_added {a : Bytes}
    (hd : Visible d) (h : Waiting source.tree target.tree d n lv)
    (hn : hidden n = false)
    (hs : source.tree.find (d ++ [n]) = some (.file a))
    (ht : target.tree.find (d ++ [n]) = none) :
    AfterFiles call source.tree target.tree d n
      (filePass call source.tree d lv n) := by
  rcases names_of_file hn hs with ⟨hroot, hrootDir⟩
  rcases names_of_none ht with ⟨hfile, hdir⟩
  rw [← h.2.1] at hfile
  rw [← h.2.2] at hdir
  have hfree : forall q, d ++ [n] <+: q -> lv.st.target.find q = none := by
    intro q hq
    rcases prefix_iff_eq_or_below.mp hq with rfl | hbelow
    · rw [(h.1 _ prefix_rfl).2.1]
      exact ht
    · exact fresh_below h.1 ht (by simp) q hbelow
  unfold filePass fileStep
  rw [if_pos hroot, if_neg hdir, if_neg hfile]
  exact .settled
    (.added (visible_concat.mpr ⟨hd, hn⟩) (.file a) hs ht (addEntry_marked h.marked)
      (addEntry_arrived (fun q hq => (h.1 q hq).1) hs hfree))
    (addEntry_quiet (quietBelow_of_same h.1)) hrootDir hdir

theorem filePass_compared {a b : Bytes}
    (hd : Visible d) (h : Waiting source.tree target.tree d n lv)
    (hn : hidden n = false)
    (hs : source.tree.find (d ++ [n]) = some (.file a))
    (ht : target.tree.find (d ++ [n]) = some (.file b)) :
    AfterFiles call source.tree target.tree d n
      (filePass call source.tree d lv n) := by
  rcases names_of_file hn hs with ⟨hroot, hrootDir⟩
  rcases names_of_file hn ht with ⟨hfile, hdir⟩
  rw [← h.2.1] at hfile
  rw [← h.2.2] at hdir
  have hsp : lv.st.source.find (d ++ [n]) = some (.file a) :=
    (h.1 _ prefix_rfl).1.trans hs
  have htp : lv.st.target.find (d ++ [n]) = some (.file b) :=
    (h.1 _ prefix_rfl).2.1.trans ht
  have hfiles : filesAt lv.st (d ++ [n]) = (a, b) := by
    unfold filesAt
    rw [hsp, htp]
  have hbelow := fresh_below h.1 ht (by simp)
  unfold filePass fileStep
  dsimp only
  rw [if_pos hroot, if_neg hdir, if_pos hfile, hfiles]
  by_cases hjudged : judgedChanged call (d ++ [n]) a b = true
  · rw [if_pos hjudged]
    refine .settled (.updated (visible_concat.mpr ⟨hd, hn⟩) a b hs ht hjudged ?_ ?_) ?_ hrootDir hdir
    · exact ((h.marked.record .updatedFile).of_diff_eq
        (rm_diff call .oldFile _ _)).of_diff_eq (mv_diff call _ _)
    · have hiff := mv_arrived_iff call
        (rm call .oldFile (d ++ [n]) (lv.st.record .updatedFile (d ++ [n]))).2
        (fun q hq => by rw [rm_source]; exact (h.1 q hq).1) hs
        (fun _ _ q hq => source.none_below (by rw [hs]; simp) hq)
      by_cases hrm : Removes call .oldFile (d ++ [n])
      · have hgone := (rm_done (lv.st.record .updatedFile (d ++ [n])) hrm).2
        have hp := hgone _ prefix_rfl
        show Arrived source.tree _ (mv call _ _).2 <-> _
        rw [hiff (fun hne => absurd hp hne) (fun q hq => hgone q hq.isPrefix), hp]
        simp [hrm]
      · rcases rm_failed (lv.st.record .updatedFile (d ++ [n])) hrm with
          ⟨_, hkept, hnone⟩
        have hp := hkept.trans htp
        show Arrived source.tree _ (mv call _ _).2 <-> _
        rw [hiff (fun _ => ⟨a, b, rfl, hp⟩)
          (fun q hq => hnone q (hbelow q hq)), hp]
        simp [hrm, @eq_comm _ b a]
    · exact (((quietBelow_of_same h.1).record .updatedFile).of_diff_eq
        (rm_diff call .oldFile _ _)).of_diff_eq (mv_diff call _ _)
  · rw [if_neg hjudged]
    exact .settled (.unchanged (visible_concat.mpr ⟨hd, hn⟩) a b hs ht (by simpa using hjudged) h.1)
      (quietBelow_of_same h.1) hrootDir hdir

theorem filePass_leftover {b : Bytes}
    (hd : Visible d) (h : Waiting source.tree target.tree d n lv)
    (hn : hidden n = false)
    (hs : source.tree.find (d ++ [n]) = none)
    (ht : target.tree.find (d ++ [n]) = some (.file b)) :
    AfterFiles call source.tree target.tree d n
      (filePass call source.tree d lv n) := by
  rcases names_of_none hs with ⟨hroot, hrootDir⟩
  rcases names_of_file hn ht with ⟨hfile, hdir⟩
  rw [← h.2.1] at hfile
  rw [← h.2.2] at hdir
  have hquiet := dropFile_quiet call .leftoverFile (quietBelow_of_same h.1)
  unfold filePass fileStep
  dsimp only
  rw [if_neg hroot, if_pos hfile, if_neg hrootDir]
  by_cases hrm : Removes call .leftoverFile (d ++ [n])
  · rcases dropFile_done lv.st hrm with ⟨st, heq, _, hmark, hgone⟩
    rw [heq] at hquiet ⊢
    exact .settled (.removed (visible_concat.mpr ⟨hd, hn⟩) (.file b) hs ht (hmark [] h.marked) hgone) hquiet
      hrootDir hdir
  · rcases dropFile_failed lv.st hrm with ⟨st, heq, _, hdiff, _⟩
    rw [heq] at hquiet ⊢
    exact .settled
      (.leftover (visible_concat.mpr ⟨hd, hn⟩) (.file b) hs ht (h.marked.of_diff_eq hdiff)
        (fun hboth => hrm hboth.1))
      hquiet hrootDir hdir

theorem filePass_overDir {a : Bytes}
    (hd : Visible d) (h : Waiting source.tree target.tree d n lv)
    (hn : hidden n = false)
    (hs : source.tree.find (d ++ [n]) = some (.file a))
    (ht : target.tree.find (d ++ [n]) = some .dir) :
    AfterFiles call source.tree target.tree d n
      (filePass call source.tree d lv n) := by
  rcases names_of_file hn hs with ⟨hroot, hrootDir⟩
  have hdir := h.2.2.mpr (names_of_dir hn ht).2
  have htp : lv.st.target.find (d ++ [n]) = some .dir :=
    (h.1 _ prefix_rfl).2.1.trans ht
  have hquiet := quietBelow_of_same h.1
  have hsource : forall q, d ++ [n] <+: q ->
      lv.st.source.find q = source.tree.find q := fun q hq => (h.1 q hq).1
  unfold filePass fileStep
  dsimp only
  rw [if_pos hroot, if_pos hdir]
  unfold clearForFile
  have hrmSource := rm_source call .dirForFile (d ++ [n]) lv.st
  have hrmDiff := rm_diff call .dirForFile (d ++ [n]) lv.st
  by_cases hrm : Removes call .dirForFile (d ++ [n])
  · have hdone := rm_done lv.st hrm
    generalize rm call .dirForFile (d ++ [n]) lv.st = r at hdone hrmSource hrmDiff
    rcases r with ⟨ok, st⟩
    cases hdone.1
    have hfree : forall q, d ++ [n] <+: q -> st.target.find q = none := hdone.2
    have hmark : Marked (st.record .deletedDir (d ++ [n])) (d ++ [n])
        [.deletedDir] := (h.marked.of_diff_eq hrmDiff).record .deletedDir
    have hsrc : forall q, d ++ [n] <+: q ->
        (st.record .deletedDir (d ++ [n])).source.find q =
          source.tree.find q := by
      intro q hq
      rw [record_source]
      rw [show st.source = lv.st.source from hrmSource]
      exact hsource q hq
    refine .settled (.fileOverDir (visible_concat.mpr ⟨hd, hn⟩) a hs ht hrm ?_ ?_ ?_ ?_) ?_ hrootDir ?_
    · intro c
      rw [addEntry_marked hmark c]
      simp [or_comm]
    · intro q hq
      rcases addEntry_target call .addedFile (d ++ [n])
        (st.record .deletedDir (d ++ [n])) q with heq | heq | heq
      · exact heq.trans (hfree q hq.isPrefix)
      · rw [heq, hsrc q hq.isPrefix]
        exact source.none_below (by rw [hs]; simp) hq
      · exact heq
    · rcases addEntry_target call .addedFile (d ++ [n])
        (st.record .deletedDir (d ++ [n])) (d ++ [n]) with heq | heq | heq
      · rw [heq, record_target, hfree _ prefix_rfl]
        simp
      · rw [heq, hsrc _ prefix_rfl, hs]
        simp
      · rw [heq]
        simp
    · exact addEntry_arrived hsrc hs hfree
    · exact addEntry_quiet ((hquiet.of_diff_eq hrmDiff).record .deletedDir)
    · rw [mem_filter_ne]
      exact fun hmem => hmem.2 rfl
  · have hfailed := rm_failed lv.st hrm
    generalize rm call .dirForFile (d ++ [n]) lv.st = r
      at hfailed hrmSource hrmDiff
    rcases r with ⟨ok, st⟩
    cases hfailed.1
    have hkept : st.target.find (d ++ [n]) = some .dir := hfailed.2.1.trans htp
    have hsp : st.source.find (d ++ [n]) = some (.file a) := by
      rw [show st.source = lv.st.source from hrmSource]
      exact (hsource _ prefix_rfl).trans hs
    -- a file is not moved onto a directory
    have hmv : (addEntry call .addedFile (d ++ [n]) st) =
        st.record .addedFile (d ++ [n]) := by
      unfold addEntry mv
      rw [record_source, record_target, hsp, hkept]
    refine .stuck hn a hs ht hrm ?_ ?_ ?_ hdir
    · show Marked (addEntry call .addedFile (d ++ [n]) st) _ _
      exact addEntry_marked (h.marked.of_diff_eq hrmDiff)
    · exact addEntry_quiet (hquiet.of_diff_eq hrmDiff)
    · show (addEntry call .addedFile (d ++ [n]) st).target.find _ = _
      rw [hmv]
      exact hkept

theorem filePass_forDir {b : Bytes}
    (h : Waiting source.tree target.tree d n lv)
    (hn : hidden n = false)
    (hs : source.tree.find (d ++ [n]) = some .dir)
    (ht : target.tree.find (d ++ [n]) = some (.file b)) :
    AfterFiles call source.tree target.tree d n
      (filePass call source.tree d lv n) := by
  rcases names_of_dir hn hs with ⟨hroot, hrootDir⟩
  rcases names_of_file hn ht with ⟨hfile, hdir⟩
  rw [← h.2.1] at hfile
  rw [← h.2.2] at hdir
  have htp : lv.st.target.find (d ++ [n]) = some (.file b) :=
    (h.1 _ prefix_rfl).2.1.trans ht
  have hquiet := dropFile_quiet call .fileForDir (quietBelow_of_same h.1)
  unfold filePass fileStep
  dsimp only
  rw [if_neg hroot, if_pos hfile, if_pos hrootDir]
  by_cases hrm : Removes call .fileForDir (d ++ [n])
  · rcases dropFile_done lv.st hrm with ⟨st, heq, hsrc, hmark, hgone⟩
    rw [heq] at hquiet ⊢
    refine .cleared hn b hs ht hrm (hmark [] h.marked) hquiet ?_ hgone ?_ hdir
    · intro q hq
      show st.source.find q = _
      rw [hsrc]
      exact (h.1 q hq).1
    · rw [mem_filter_ne]
      exact fun hmem => hmem.2 rfl
  · rcases dropFile_failed lv.st hrm with
      ⟨st, heq, hsrc, hdiff, hkept, hnone⟩
    rw [heq] at hquiet ⊢
    refine .blocked hn b hs ht hrm (h.marked.of_diff_eq hdiff) hquiet ?_
      (hkept.trans htp) ?_ hfile
    · intro q hq
      show st.source.find q = _
      rw [hsrc]
      exact (h.1 q hq).1
    · intro q hq
      exact hnone q (fresh_below h.1 ht (by simp) q hq)

theorem filePass_after
    (hd : Visible d) (h : Waiting source.tree target.tree d n lv) :
    AfterFiles call source.tree target.tree d n
      (filePass call source.tree d lv n) := by
  have hidle : n ∉ visibleNames source.tree d isFile ->
      n ∉ visibleNames target.tree d isFile ->
      AfterFiles call source.tree target.tree d n
        (filePass call source.tree d lv n) := by
    intro hroot hfile
    unfold filePass fileStep
    rw [if_neg hroot, if_neg (mt h.2.1.mp hfile)]
    rw [mem_fileNames] at hroot hfile
    exact .waiting h fun hn =>
      ⟨fun a hs => hroot ⟨hn, a, hs⟩, fun b ht => hfile ⟨hn, b, ht⟩⟩
  cases hn : hidden n with
  | true => exact hidle (by simp [mem_fileNames, hn]) (by simp [mem_fileNames, hn])
  | false =>
    cases hs : source.tree.find (d ++ [n]) with
    | none =>
      have hroot := (names_of_none hs).1
      cases ht : target.tree.find (d ++ [n]) with
      | none => exact hidle hroot (names_of_none ht).1
      | some e =>
        cases e with
        | file b => exact filePass_leftover hd h hn hs ht
        | dir => exact hidle hroot (names_of_dir hn ht).1
    | some e =>
      cases e with
      | file a =>
        cases ht : target.tree.find (d ++ [n]) with
        | none => exact filePass_added hd h hn hs ht
        | some e =>
          cases e with
          | file b => exact filePass_compared hd h hn hs ht
          | dir => exact filePass_overDir hd h hn hs ht
      | dir =>
        have hroot := (names_of_dir hn hs).1
        cases ht : target.tree.find (d ++ [n]) with
        | none => exact hidle hroot (names_of_none ht).1
        | some e =>
          cases e with
          | file b => exact filePass_forDir h hn hs ht
          | dir => exact hidle hroot (names_of_dir hn ht).1

end Rounds

end TreeSync
end OpenViking
