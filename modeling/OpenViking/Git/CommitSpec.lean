import OpenViking.Git.Commit
import OpenViking.Git.EditorWrite

/-!
# What a commit call computes

The classification step decides which paths are candidates and which are
dropped at once; the candidate loop turns the candidates into edits.  Both are
described by sets of paths, so that the results about whole commits are
statements about sets.
-/

namespace OpenViking
namespace Git

open Paths WorkTree List Git.Scan TreeEditor

/-!
# The scope of a request
-/

/-- The paths that listing `p` makes the commit look at. -/
def Scans (vfs : WorkTree) (p q : Path) : Prop :=
  (vfs.IsDir p ∧ Below p q) ∨ (vfs.Missing p ∧ p <+: q) ∨
    ((exists data, vfs.fileAt p = some data) ∧ q = p)

/-- The paths that a request makes the commit look at. -/
def Covered (vfs : WorkTree) : Option (List Path) -> Path -> Prop
  | none, _ => True
  | some ps, q => exists p, p ∈ ps ∧ Scans vfs p q

/-- The request names the path, and it is no directory. -/
def ListedLeaf (vfs : WorkTree) : Option (List Path) -> Path -> Prop
  | none, _ => False
  | some ps, q => q ∈ ps ∧ ¬ vfs.IsDir q

def Tracked (matcher : IgnoreMatcher) (p : Path) : Prop :=
  shouldTrackPath p matcher = true

def HadFile (prevTree : Tree) (p : Path) : Prop :=
  exists oid, prevTree.blobAt p = some oid

def OnDisk (vfs : WorkTree) (p : Path) : Prop :=
  exists data, vfs.fileAt p = some data

theorem scans_self {vfs : WorkTree} {p : Path} (h : ¬ vfs.IsDir p) :
    Scans vfs p p := by
  rcases vfs.node?_cases p with hfile | hdir | hmiss
  · exact .inr (.inr ⟨hfile, rfl⟩)
  · exact absurd hdir h
  · exact .inr (.inl ⟨hmiss, prefix_rfl⟩)

theorem includePath_fst (matcher : IgnoreMatcher) (s : Scan) (p : Path) :
    (s.includePath matcher p).1 = true <-> Tracked matcher p := by
  unfold includePath Tracked
  by_cases hprune : prunePath p = true
  · rw [if_pos hprune]
    constructor
    · nofun
    · intro h
      rw [prunePath_of_shouldTrackPath h] at hprune
      cases hprune
  · rw [if_neg hprune]
    cases htrack : shouldTrackPath p matcher with
    | true => simp
    | false =>
      simp only [Bool.not_false, if_true]
      by_cases hcred : p ∈ s.creditedIgnored <;> simp [hcred]

theorem includePath_snd (matcher : IgnoreMatcher) (s : Scan) (p : Path) :
    (s.includePath matcher p).2.editor = s.editor ∧
      (s.includePath matcher p).2.changed = s.changed ∧
      (s.includePath matcher p).2.creditedRemoved = s.creditedRemoved ∧
      (s.includePath matcher p).2.candidates = s.candidates ∧
      (s.includePath matcher p).2.cleanupExact = s.cleanupExact ∧
      (s.includePath matcher p).2.cleanupPrefixes = s.cleanupPrefixes := by
  unfold includePath
  by_cases hprune : prunePath p = true
  · simp [hprune]
  · cases htrack : shouldTrackPath p matcher with
    | true => simp [hprune]
    | false =>
      by_cases hcred : p ∈ s.creditedIgnored <;> simp [hprune, hcred]

/-!
# Classification
-/

section Classification

variable {matcher : IgnoreMatcher} {vfs : WorkTree} {prevTree : Tree}

/--
The state of the classification step: the editor stands for the previous tree
without the credited removals, all of which it had and no longer tracks.
-/
structure ScanInv (matcher : IgnoreMatcher) (vfs : WorkTree)
    (prevTree : Tree) (s : Scan) : Prop where
  valid : s.editor.Valid
  anchored : TreeEditor.Anchored vfs.IsDir s.editor
  shallow : forall p, s.editor.Loaded p ->
    p = [] ∨ exists q, HadFile prevTree q ∧ Below p q
  removed : forall p, p ∈ s.creditedRemoved ->
    HadFile prevTree p ∧ ¬ Tracked matcher p
  files : forall q, s.editor.blobAt q =
    if q ∈ s.creditedRemoved then none else prevTree.blobAt q
  count : s.changed = s.creditedRemoved.length

theorem scanInv_start (matcher : IgnoreMatcher) (vfs : WorkTree)
    {prevTree : Tree} (hwf : prevTree.WellFormed) :
    ScanInv matcher vfs prevTree
      (start (fromTree prevTree)) where
  valid := fromTree_valid hwf
  anchored := fromTree_anchored _ _
  shallow := fun _ hp => .inl (fromTree_loaded hp)
  removed := nofun
  files := by
    intro q
    simp [start]
  count := rfl

variable {s : Scan}

theorem ScanInv.congr (h : ScanInv matcher vfs prevTree s)
    (s' : Scan) (heditor : s'.editor = s.editor) (hchanged : s'.changed = s.changed)
    (hremoved : s'.creditedRemoved = s.creditedRemoved) :
    ScanInv matcher vfs prevTree s' where
  valid := by rw [heditor]; exact h.valid
  anchored := by rw [heditor]; exact h.anchored
  shallow := by rw [heditor]; exact h.shallow
  removed := by rw [hremoved]; exact h.removed
  files := by rw [heditor, hremoved]; exact h.files
  count := by rw [hchanged, hremoved]; exact h.count

theorem HadFile.not_below {p q : Path} (hp : HadFile prevTree p)
    (hq : HadFile prevTree q) : ¬ Below p q := by
  intro hbelow
  rcases hp with ⟨a, ha⟩
  rcases hq with ⟨b, hb⟩
  rw [Tree.blobAt_of_below_blob ha hbelow] at hb
  cases hb

theorem HadFile.ne_nil {p : Path} (hp : HadFile prevTree p) : p ≠ [] := by
  rintro rfl
  rcases hp with ⟨oid, hoid⟩
  simp at hoid

/-- Dropping a file of the previous tree that is no longer tracked. -/
theorem dropPath_ok (h : ScanInv matcher vfs prevTree s)
    {p : Path} (hp : HadFile prevTree p) (htrack : ¬ Tracked matcher p) :
    exists s', s.dropPath p = .ok s' ∧
      ScanInv matcher vfs prevTree s' ∧
      (forall q, q ∈ s'.creditedRemoved <->
        q ∈ s.creditedRemoved ∨ q = p) ∧
      s'.candidates = s.candidates ∧
      s'.cleanupExact = s.cleanupExact ∧
      s'.cleanupPrefixes = s.cleanupPrefixes := by
  have hloaded : forall q, p <+: q -> ¬ s.editor.Loaded q := by
    intro q hpre hload
    rcases h.shallow q hload with rfl | ⟨r, hr, hbelow⟩
    · exact hp.ne_nil (prefix_nil.mp hpre)
    · exact hp.not_below hr (below_of_isPrefix_of_below hpre hbelow)
  rcases remove_anchored h.valid h.anchored hp.ne_nil
    (.inr hloaded) with ⟨e', hrun, hvalid', hanch', hfiles', hloaded'⟩
  have hshallow' : forall q, e'.Loaded q ->
      q = [] ∨ exists r, HadFile prevTree r ∧ Below q r := by
    intro q hq
    rcases hloaded' q hq with hq | hq
    · exact h.shallow q hq
    · exact .inr ⟨p, hp, hq⟩
  -- The previous tree has nothing below the removed file.
  have hfiles : forall q, e'.blobAt q =
      if q ∈ s.creditedRemoved ∨ q = p then none else prevTree.blobAt q := by
    intro q
    rw [hfiles', h.files]
    by_cases hqp : q = p
    · simp [hqp]
    simp only [hqp, or_false]
    by_cases hpre : p <+: q
    · rw [if_pos hpre]
      rcases prefix_iff_eq_or_below.mp hpre with heq | hbelow
      · exact absurd heq.symm hqp
      · rcases hp with ⟨oid, hoid⟩
        rw [Tree.blobAt_of_below_blob hoid hbelow, ite_self]
    · rw [if_neg hpre]
  by_cases hcred : p ∈ s.creditedRemoved
  · refine ⟨{ s with editor := e' }, ?_, ?_, ?_, rfl, rfl, rfl⟩
    · simp [dropPath, hrun, hcred, bind, Except.bind, pure, Except.pure]
    · constructor
      · exact hvalid'
      · exact hanch'
      · exact hshallow'
      · exact h.removed
      · intro q
        rw [hfiles]
        by_cases hqp : q = p
        · simp [hqp, hcred]
        · simp [hqp]
      · exact h.count
    · intro q
      constructor
      · exact .inl
      · rintro (hq | rfl)
        · exact hq
        · exact hcred
  · refine ⟨{ s with
      editor := e'
      creditedRemoved := p :: s.creditedRemoved
      changed := s.changed + 1 }, ?_, ?_, ?_, rfl, rfl, rfl⟩
    · simp [dropPath, hrun, hcred, bind, Except.bind, pure, Except.pure]
    · constructor
      · exact hvalid'
      · exact hanch'
      · exact hshallow'
      · intro q hq
        rcases mem_cons.mp hq with rfl | hq
        · exact ⟨hp, htrack⟩
        · exact h.removed q hq
      · intro q
        rw [hfiles]
        simp [or_comm]
      · simp [h.count]
    · intro q
      simp [or_comm]

/-- What a classification step adds to the removals and to the candidates. -/
structure Adds (matcher : IgnoreMatcher) (vfs : WorkTree) (prevTree : Tree)
    (s s' : Scan) (removes offers : Path -> Prop) : Prop where
  inv : ScanInv matcher vfs prevTree s'
  removed : forall q, q ∈ s'.creditedRemoved <->
    q ∈ s.creditedRemoved ∨ removes q
  candidates : forall q, q ∈ s'.candidates <-> q ∈ s.candidates ∨ offers q

/-- A step that leaves the cleanup sets alone. -/
def SameCleanup (s s' : Scan) : Prop :=
  s'.cleanupExact = s.cleanupExact ∧ s'.cleanupPrefixes = s.cleanupPrefixes

theorem Adds.refl (h : ScanInv matcher vfs prevTree s) :
    Adds matcher vfs prevTree s s (fun _ => False) (fun _ => False) where
  inv := h
  removed := by simp
  candidates := by simp

theorem Adds.trans {s s₁ s₂ : Scan} {r r' c c' : Path -> Prop}
    (h : Adds matcher vfs prevTree s s₁ r c)
    (h' : Adds matcher vfs prevTree s₁ s₂ r' c') :
    Adds matcher vfs prevTree s s₂ (fun q => r q ∨ r' q)
      (fun q => c q ∨ c' q) where
  inv := h'.inv
  removed := by
    intro q
    rw [h'.removed, h.removed, or_assoc]
  candidates := by
    intro q
    rw [h'.candidates, h.candidates, or_assoc]

theorem Adds.iff {s s' : Scan} {r r' c c' : Path -> Prop}
    (h : Adds matcher vfs prevTree s s' r c) (hr : forall q, r q <-> r' q)
    (hc : forall q, c q <-> c' q) :
    Adds matcher vfs prevTree s s' r' c' where
  inv := h.inv
  removed := by
    intro q
    rw [h.removed, hr]
  candidates := by
    intro q
    rw [h.candidates, hc]

theorem Adds.of_base {s₁ s' : Scan} {r c : Path -> Prop}
    (h : Adds matcher vfs prevTree s₁ s' r c) (s : Scan)
    (hremoved : s₁.creditedRemoved = s.creditedRemoved)
    (hcandidates : s₁.candidates = s.candidates) :
    Adds matcher vfs prevTree s s' r c :=
  ⟨h.inv, hremoved ▸ h.removed, hcandidates ▸ h.candidates⟩

theorem SameCleanup.refl (s : Scan) : SameCleanup s s := ⟨rfl, rfl⟩

theorem SameCleanup.trans {s s₁ s₂ : Scan} (h : SameCleanup s s₁)
    (h' : SameCleanup s₁ s₂) : SameCleanup s s₂ :=
  ⟨h'.1.trans h.1, h'.2.trans h.2⟩

theorem addPreviousPath_ok (inScope : Path -> Bool)
    (h : ScanInv matcher vfs prevTree s) {p : Path}
    (hp : HadFile prevTree p) :
    exists s', s.addPreviousPath matcher inScope p = .ok s' ∧
      Adds matcher vfs prevTree s s'
        (fun q => q = p ∧ inScope q = true ∧ ¬ Tracked matcher q)
        (fun q => q = p ∧ inScope q = true ∧ Tracked matcher q) ∧
      SameCleanup s s' := by
  unfold addPreviousPath
  by_cases hscope : inScope p = true
  · rw [if_neg (by simp [hscope])]
    by_cases htrack : Tracked matcher p
    · have htrack' : shouldTrackPath p matcher = true := htrack
      rw [if_pos htrack']
      refine ⟨_, rfl, ?_, rfl, rfl⟩
      constructor
      · exact h.congr _ rfl rfl rfl
      · intro q
        apply (or_iff_left ?_).symm
        rintro ⟨rfl, _, hnot⟩
        exact absurd htrack hnot
      · intro q
        rw [mem_cons]
        constructor
        · rintro (rfl | hq)
          · exact .inr ⟨rfl, hscope, htrack⟩
          · exact .inl hq
        · rintro (hq | hq)
          · exact .inr hq
          · exact .inl hq.1
    · have htrack' : ¬ shouldTrackPath p matcher = true := htrack
      rw [if_neg htrack']
      rcases dropPath_ok h hp htrack with
        ⟨s', hrun, hinv, hrem, hcand, hexact, hprefixes⟩
      refine ⟨s', hrun, ⟨hinv, ?_, ?_⟩, hexact, hprefixes⟩
      · intro q
        rw [hrem]
        constructor
        · rintro (hq | rfl)
          · exact .inl hq
          · exact .inr ⟨rfl, hscope, htrack⟩
        · rintro (hq | hq)
          · exact .inl hq
          · exact .inr hq.1
      · intro q
        rw [hcand]
        apply (or_iff_left ?_).symm
        rintro ⟨rfl, _, ht⟩
        exact absurd ht htrack
  · rw [if_pos (by simp [hscope])]
    refine ⟨s, rfl, (Adds.refl h).iff ?_ ?_, SameCleanup.refl s⟩
    · intro q
      rw [false_iff]
      rintro ⟨rfl, hq, _⟩
      exact hscope hq
    · intro q
      rw [false_iff]
      rintro ⟨rfl, hq, _⟩
      exact hscope hq

theorem addPrevious_ok (hwf : prevTree.WellFormed) (inScope : Path -> Bool)
    (h : ScanInv matcher vfs prevTree s) :
    exists s', s.addPrevious matcher prevTree.paths inScope = .ok s' ∧
      Adds matcher vfs prevTree s s'
        (fun q => HadFile prevTree q ∧ inScope q = true ∧
          ¬ Tracked matcher q)
        (fun q => HadFile prevTree q ∧ inScope q = true ∧
          Tracked matcher q) ∧
      SameCleanup s s' := by
  have hfold : forall (ps : List Path) (s : Scan),
      (forall p, p ∈ ps -> HadFile prevTree p) ->
      ScanInv matcher vfs prevTree s ->
      exists s', s.addPrevious matcher ps inScope = .ok s' ∧
        Adds matcher vfs prevTree s s'
          (fun q => q ∈ ps ∧ inScope q = true ∧ ¬ Tracked matcher q)
          (fun q => q ∈ ps ∧ inScope q = true ∧ Tracked matcher q) ∧
        SameCleanup s s' := by
    intro ps
    induction ps with
    | nil =>
      intro s _ h
      exact ⟨s, rfl, (Adds.refl h).iff (by simp) (by simp), SameCleanup.refl s⟩
    | cons p rest ih =>
      intro s hps h
      rcases addPreviousPath_ok inScope h (hps p mem_cons_self) with
        ⟨s₁, hrun₁, hadds₁, hsame₁⟩
      rcases ih s₁ (fun q hq => hps q (mem_cons_of_mem _ hq))
        hadds₁.inv with ⟨s', hrun, hadds, hsame⟩
      refine ⟨s', ?_, (hadds₁.trans hadds).iff ?_ ?_, hsame₁.trans hsame⟩
      · unfold addPrevious
        rw [foldlM_cons, hrun₁]
        exact hrun
      · intro q
        rw [mem_cons, or_and_right]
      · intro q
        rw [mem_cons, or_and_right]
  rcases hfold prevTree.paths s
    (fun p hp => (Tree.mem_paths hwf).mp hp) h with ⟨s', hrun, hadds, hsame⟩
  refine ⟨s', hrun, hadds.iff ?_ ?_, hsame⟩
  · intro q
    rw [Tree.mem_paths hwf]
    rfl
  · intro q
    rw [Tree.mem_paths hwf]
    rfl

theorem addListedPath_ok (h : ScanInv matcher vfs prevTree s)
    (p : Path) :
    Adds matcher vfs prevTree s (s.addListed matcher p) (fun _ => False)
        (fun q => q = p ∧ Tracked matcher q) ∧
      SameCleanup s (s.addListed matcher p) := by
  rcases includePath_snd matcher s p with
    ⟨heditor, hchanged, hremoved, hcand, hexact, hprefixes⟩
  have htrack := includePath_fst matcher s p
  by_cases hinc : (s.includePath matcher p).1 = true
  · have hadd : s.addListed matcher p =
        { (s.includePath matcher p).2 with
          candidates := p :: (s.includePath matcher p).2.candidates } := by
      simp [addListed, hinc]
    rw [hadd]
    refine ⟨⟨h.congr _ heditor hchanged hremoved, ?_, ?_⟩, hexact, hprefixes⟩
    · intro q
      simp [hremoved]
    intro q
    simp only [mem_cons, hcand]
    constructor
    · rintro (rfl | hq)
      · exact .inr ⟨rfl, htrack.mp hinc⟩
      · exact .inl hq
    · rintro (hq | hq)
      · exact .inr hq
      · exact .inl hq.1
  · have hadd : s.addListed matcher p = (s.includePath matcher p).2 := by
      simp [addListed, hinc]
    rw [hadd]
    refine ⟨⟨h.congr _ heditor hchanged hremoved, ?_, ?_⟩, hexact, hprefixes⟩
    · intro q
      simp [hremoved]
    · intro q
      rw [hcand]
      apply (or_iff_left ?_).symm
      rintro ⟨rfl, ht⟩
      exact absurd (htrack.mpr ht) hinc

theorem addListed_ok (h : ScanInv matcher vfs prevTree s)
    (listed : List Path) :
    Adds matcher vfs prevTree s
        (listed.foldl (fun s rel => s.addListed matcher rel) s)
        (fun _ => False) (fun q => q ∈ listed ∧ Tracked matcher q) ∧
      SameCleanup s
        (listed.foldl (fun s rel => s.addListed matcher rel) s) := by
  induction listed generalizing s with
  | nil => exact ⟨(Adds.refl h).iff (by simp) (by simp), SameCleanup.refl s⟩
  | cons p rest ih =>
    rw [foldl_cons]
    have hstep := addListedPath_ok h p
    have hrest := ih hstep.1.inv
    refine ⟨(hstep.1.trans hrest.1).iff (by simp) ?_, hstep.2.trans hrest.2⟩
    intro q
    rw [mem_cons, or_and_right]

theorem addExplicit_ok (hwf : prevTree.WellFormed)
    (h : ScanInv matcher vfs prevTree s) (p : Path) :
    exists s', s.addExplicit matcher prevTree.paths p = .ok s' ∧
      Adds matcher vfs prevTree s s'
        (fun q => HadFile prevTree q ∧ q = p ∧ ¬ Tracked matcher q)
        (fun q => q = p ∧ Tracked matcher q) ∧
      SameCleanup s s' := by
  rcases includePath_snd matcher s p with
    ⟨heditor, hchanged, hremoved, hcand, hexact, hprefixes⟩
  have htrack := includePath_fst matcher s p
  have hinv₁ := h.congr _ heditor hchanged hremoved
  by_cases hinc : (s.includePath matcher p).1 = true
  · have hadd := addListedPath_ok h p
    refine ⟨s.addListed matcher p, ?_, hadd.1.iff ?_ (by simp), hadd.2⟩
    · simp [addExplicit, addListed, hinc]
    · intro q
      rw [false_iff]
      rintro ⟨_, rfl, hnot⟩
      exact hnot (htrack.mp hinc)
  · have hnot : ¬ Tracked matcher p := fun ht => hinc (htrack.mpr ht)
    by_cases hdrop : p ∈ prevTree.paths ∧
        p ∉ (s.includePath matcher p).2.creditedRemoved
    · have hhad : HadFile prevTree p := (Tree.mem_paths hwf).mp hdrop.1
      rcases dropPath_ok hinv₁ hhad hnot with
        ⟨s', hrun, hinv', hrem', hcand', hexact', hprefixes'⟩
      refine ⟨s', ?_, ⟨hinv', ?_, ?_⟩, hexact'.trans hexact,
        hprefixes'.trans hprefixes⟩
      · rw [← hrun]
        simp only [addExplicit, hinc, Bool.false_eq_true, if_false]
        rw [if_pos hdrop]
      · intro q
        rw [hrem', hremoved]
        constructor
        · rintro (hq | rfl)
          · exact .inl hq
          · exact .inr ⟨hhad, rfl, hnot⟩
        · rintro (hq | hq)
          · exact .inl hq
          · exact .inr hq.2.1
      · intro q
        rw [hcand', hcand]
        apply (or_iff_left ?_).symm
        rintro ⟨rfl, ht⟩
        exact absurd ht hnot
    · refine ⟨(s.includePath matcher p).2, ?_, ⟨hinv₁, ?_, ?_⟩, hexact, hprefixes⟩
      · simp only [addExplicit, hinc, Bool.false_eq_true, if_false]
        rw [if_neg hdrop]
      · intro q
        rw [hremoved]
        constructor
        · exact .inl
        · rintro (hq | ⟨hhad, rfl, _⟩)
          · exact hq
          · by_contra hq
            exact hdrop ⟨(Tree.mem_paths hwf).mpr hhad, by rwa [hremoved]⟩
      · intro q
        rw [hcand]
        apply (or_iff_left ?_).symm
        rintro ⟨rfl, ht⟩
        exact absurd ht hnot

/-- What one listed path contributes. -/
theorem classifyPath_ok (hwf : prevTree.WellFormed)
    (h : ScanInv matcher vfs prevTree s) (p : Path) :
    exists s', s.classifyPath matcher prevTree.paths vfs p = .ok s' ∧
      Adds matcher vfs prevTree s s'
        (fun q => HadFile prevTree q ∧ Scans vfs p q ∧ ¬ Tracked matcher q)
        (fun q => ((q = p ∧ ¬ vfs.IsDir p) ∨ OnDisk vfs q ∨
          HadFile prevTree q) ∧ Scans vfs p q ∧ Tracked matcher q) ∧
      (forall q, q ∈ s'.cleanupExact <->
        q ∈ s.cleanupExact ∨ (q = p ∧ ¬ vfs.IsDir p)) ∧
      (forall q, q ∈ s'.cleanupPrefixes <->
        q ∈ s.cleanupPrefixes ∨ (q = p ∧ ¬ OnDisk vfs p)) := by
  unfold classifyPath
  rcases vfs.node?_cases p with ⟨data, hfile⟩ | hdir | hmiss
  · -- A file is taken verbatim.
    have hnotdir := not_isDir_of_fileAt hfile
    have hnotmiss := not_missing_of_fileAt hfile
    rcases fileAt_eq_some_iff.mp hfile with ⟨modTime, hnode⟩
    have hstat : vfs.stat p = .ok ⟨data.length, modTime, false⟩ := by
      rw [stat, hnode]
    have hscans : forall q, Scans vfs p q <-> q = p := by
      intro q
      simp [Scans, hnotdir, hnotmiss, hfile]
    rcases addExplicit_ok hwf
      (h.congr { s with cleanupExact := p :: s.cleanupExact }
        rfl rfl rfl) p with ⟨s', hrun, hadds, hexact, hprefixes⟩
    refine ⟨s', ?_, ?_, ?_, ?_⟩
    · rw [hstat]
      exact hrun
    · apply (hadds.of_base s rfl rfl).iff
      · intro q
        rw [hscans]
      · intro q
        rw [hscans]
        constructor
        · rintro ⟨rfl, ht⟩
          exact ⟨.inl ⟨rfl, hnotdir⟩, rfl, ht⟩
        · exact And.right
    · intro q
      rw [hexact, mem_cons, or_comm]
      simp [hnotdir]
    · intro q
      rw [hprefixes]
      simp [OnDisk, hfile]
  · -- A directory contributes its listing and the previous files below it.
    rcases hdir with ⟨modTime, hnode⟩
    have hdir : vfs.IsDir p := ⟨modTime, hnode⟩
    have hnotmiss := not_missing_of_isDir hdir
    have hnofile := fileAt_of_isDir hdir
    have hstat : vfs.stat p = .ok ⟨0, modTime, true⟩ := by
      rw [stat, hnode]
    have hscans : forall q, Scans vfs p q <-> Below p q := by
      intro q
      simp [Scans, hdir, hnotmiss, hnofile]
    rcases collectUnder_ok hdir with ⟨listed, hlist, hlisted⟩
    have hadd := addListed_ok
      (h.congr { s with cleanupPrefixes := p :: s.cleanupPrefixes }
        rfl rfl rfl) listed
    rcases addPrevious_ok hwf (fun path => decide (Below p path))
      hadd.1.inv with ⟨s', hrun, hadds, hsame⟩
    have hall := hadd.1.trans hadds
    have hclean := hadd.2.trans hsame
    refine ⟨s', ?_, ?_, ?_, ?_⟩
    · rw [hstat]
      simp only [if_true, hlist, bind, Except.bind]
      exact hrun
    · apply (hall.of_base s rfl rfl).iff
      · intro q
        rw [hscans]
        simp
      intro q
      rw [hscans]
      simp only [decide_eq_true_eq]
      constructor
      · rintro (⟨hq, ht⟩ | ⟨hhad, hbelow, ht⟩)
        · have := (hlisted q).mp hq
          exact ⟨.inr (.inl this.2.2), this.1, ht⟩
        · exact ⟨.inr (.inr hhad), hbelow, ht⟩
      · rintro ⟨⟨_, hnot⟩ | hdisk | hhad, hbelow, ht⟩
        · exact absurd hdir hnot
        · exact .inl ⟨(hlisted q).mpr
            ⟨hbelow, prunePath_of_shouldTrackPath ht, hdisk⟩, ht⟩
        · exact .inr ⟨hhad, hbelow, ht⟩
    · intro q
      rw [hclean.1]
      simp [hdir]
    · intro q
      rw [hclean.2, mem_cons, or_comm]
      simp [OnDisk, hnofile]
  · -- A missing path stands for whatever the previous tree had there.
    have hnotdir : ¬ vfs.IsDir p := fun hdir =>
      not_missing_of_isDir hdir hmiss
    have hnofile := fileAt_of_missing hmiss
    have hstat : vfs.stat p = .error (FsError.notFound p) := by
      have hnode : vfs.node? p = none := hmiss
      rw [stat, hnode]
    have hscans : forall q, Scans vfs p q <-> q = p ∨ Below p q := by
      intro q
      simp [Scans, hnotdir, hmiss, hnofile, prefix_iff_eq_or_below, eq_comm]
    have hnodisk : forall q, Below p q -> ¬ OnDisk vfs q := by
      intro q hq hdisk
      rcases hdisk with ⟨data, hdata⟩
      exact not_missing_of_fileAt hdata
        (missing_below hnotdir hq)
    rcases addExplicit_ok hwf
      (h.congr { s with
        cleanupExact := p :: s.cleanupExact
        cleanupPrefixes := p :: s.cleanupPrefixes } rfl rfl rfl) p with
      ⟨s₁, hrun₁, hadds₁, hsame₁⟩
    rcases addPrevious_ok hwf (fun path => decide (Below p path))
      hadds₁.inv with ⟨s', hrun, hadds, hsame⟩
    have hall := hadds₁.trans hadds
    have hclean := hsame₁.trans hsame
    refine ⟨s', ?_, ?_, ?_, ?_⟩
    · rw [hstat]
      simp only [isNotFound, if_true, hrun₁, bind, Except.bind]
      exact hrun
    · apply (hall.of_base s rfl rfl).iff
      · intro q
        rw [hscans, or_and_right, and_or_left]
        simp only [decide_eq_true_eq]
      intro q
      rw [hscans]
      simp only [decide_eq_true_eq]
      constructor
      · rintro (⟨rfl, ht⟩ | ⟨hhad, hbelow, ht⟩)
        · exact ⟨.inl ⟨rfl, hnotdir⟩, .inl rfl, ht⟩
        · exact ⟨.inr (.inr hhad), .inr hbelow, ht⟩
      · rintro ⟨hor, rfl | hbelow, ht⟩
        · exact .inl ⟨rfl, ht⟩
        · rcases hor with ⟨rfl, _⟩ | hdisk | hhad
          · exact .inl ⟨rfl, ht⟩
          · exact absurd hdisk (hnodisk q hbelow)
          · exact .inr ⟨hhad, hbelow, ht⟩
    · intro q
      rw [hclean.1, mem_cons, or_comm]
      simp [hnotdir]
    · intro q
      rw [hclean.2, mem_cons, or_comm]
      simp [OnDisk, hnofile]

/-- The paths that the candidate loop will visit. -/
def Candidate (matcher : IgnoreMatcher) (vfs : WorkTree) (prevTree : Tree)
    (paths : Option (List Path)) (q : Path) : Prop :=
  (ListedLeaf vfs paths q ∨ OnDisk vfs q ∨ HadFile prevTree q) ∧
    Covered vfs paths q ∧ Tracked matcher q

/-- The paths that the classification step removes at once. -/
def Dropped (matcher : IgnoreMatcher) (vfs : WorkTree) (prevTree : Tree)
    (paths : Option (List Path)) (q : Path) : Prop :=
  HadFile prevTree q ∧ Covered vfs paths q ∧ ¬ Tracked matcher q

/-- The index entries that the classification step discards. -/
def CleanedUp (vfs : WorkTree) (paths : Option (List Path)) (s : Scan) :
    Prop :=
  forall ps, paths = some ps ->
    (forall q, q ∈ s.cleanupExact <-> q ∈ ps ∧ ¬ vfs.IsDir q) ∧
    (forall q, q ∈ s.cleanupPrefixes <-> q ∈ ps ∧ ¬ OnDisk vfs q)

theorem mem_cons_and {P : Path -> Prop} {p q : Path} {rest : List Path} :
    (q = p ∧ ¬ P p ∨ q ∈ rest ∧ ¬ P q) <-> q ∈ p :: rest ∧ ¬ P q := by
  rw [mem_cons, or_and_right]
  exact or_congr_left (and_congr_right fun heq => heq ▸ Iff.rfl)

theorem classify_ok (matcher : IgnoreMatcher) (vfs : WorkTree)
    (hwf : prevTree.WellFormed) (paths : Option (List Path)) :
    exists s, classify matcher prevTree.paths vfs paths
        (start (fromTree prevTree)) = .ok s ∧
      ScanInv matcher vfs prevTree s ∧
      (forall q, q ∈ s.creditedRemoved <->
        Dropped matcher vfs prevTree paths q) ∧
      (forall q, q ∈ s.candidates <->
        Candidate matcher vfs prevTree paths q) ∧
      CleanedUp vfs paths s := by
  have hstart := scanInv_start matcher vfs hwf
  cases paths with
  | none =>
    rcases collectUnder_ok vfs.isDir_nil with ⟨listed, hlist, hlisted⟩
    have hadd := addListed_ok hstart listed
    rcases addPrevious_ok hwf (fun _ => true) hadd.1.inv with
      ⟨s', hrun, hadds, _⟩
    have hall := hadd.1.trans hadds
    refine ⟨s', ?_, hall.inv, ?_, ?_, ?_⟩
    · unfold classify collectAll
      simp only [hlist, bind, Except.bind]
      exact hrun
    · intro q
      rw [hall.removed]
      simp [start, Dropped, Covered]
    · intro q
      rw [hall.candidates]
      constructor
      · rintro (hq | ⟨hq, ht⟩ | ⟨hhad, _, ht⟩)
        · cases hq
        · exact ⟨.inr (.inl ((hlisted q).mp hq).2.2), trivial, ht⟩
        · exact ⟨.inr (.inr hhad), trivial, ht⟩
      · rintro ⟨hlist | hdisk | hhad, _, ht⟩
        · exact hlist.elim
        · refine .inr (.inl ⟨(hlisted q).mpr ⟨?_, ?_, hdisk⟩, ht⟩)
          · rcases hdisk with ⟨data, hdata⟩
            exact nil_below_iff.mpr (ne_nil_of_fileAt hdata)
          · exact prunePath_of_shouldTrackPath ht
        · exact .inr (.inr ⟨hhad, rfl, ht⟩)
    · nofun
  | some ps =>
    have hfold : forall (ps : List Path) (s : Scan),
        ScanInv matcher vfs prevTree s ->
        exists s', ps.foldlM (classifyPath matcher prevTree.paths vfs) s =
              .ok s' ∧
          Adds matcher vfs prevTree s s' (Dropped matcher vfs prevTree (some ps))
            (Candidate matcher vfs prevTree (some ps)) ∧
          (forall q, q ∈ s'.cleanupExact <->
            q ∈ s.cleanupExact ∨ (q ∈ ps ∧ ¬ vfs.IsDir q)) ∧
          (forall q, q ∈ s'.cleanupPrefixes <->
            q ∈ s.cleanupPrefixes ∨ (q ∈ ps ∧ ¬ OnDisk vfs q)) := by
      intro ps
      induction ps with
      | nil =>
        intro s h
        refine ⟨s, rfl, (Adds.refl h).iff ?_ ?_, by simp, by simp⟩
        · intro q
          simp [Dropped, Covered]
        · intro q
          simp [Candidate, Covered]
      | cons p rest ih =>
        intro s h
        rcases classifyPath_ok hwf h p with
          ⟨s₁, hrun₁, hadds₁, hexact₁, hprefixes₁⟩
        rcases ih s₁ hadds₁.inv with
          ⟨s', hrun, hadds, hexact, hprefixes⟩
        refine ⟨s', ?_, (hadds₁.trans hadds).iff ?_ ?_, ?_, ?_⟩
        · rw [foldlM_cons, hrun₁]
          exact hrun
        · intro q
          simp only [Dropped, Covered, mem_cons, exists_eq_or_imp]
          tauto
        · intro q
          constructor
          · rintro (⟨hor, hscan, ht⟩ | ⟨hor, ⟨p', hp', hscan⟩, ht⟩)
            · refine ⟨?_, ⟨p, mem_cons_self, hscan⟩, ht⟩
              rcases hor with ⟨rfl, hd⟩ | hor
              · exact .inl ⟨mem_cons_self, hd⟩
              · exact .inr hor
            · refine ⟨?_, ⟨p', mem_cons_of_mem _ hp', hscan⟩, ht⟩
              rcases hor with ⟨hq, hd⟩ | hor
              · exact .inl ⟨mem_cons_of_mem _ hq, hd⟩
              · exact .inr hor
          · rintro ⟨⟨hq, hd⟩ | hor, ⟨p', hp', hscan⟩, ht⟩
            · rcases mem_cons.mp hq with rfl | hq
              · exact .inl ⟨.inl ⟨rfl, hd⟩, scans_self hd, ht⟩
              · exact .inr ⟨.inl ⟨hq, hd⟩, ⟨q, hq, scans_self hd⟩, ht⟩
            · rcases mem_cons.mp hp' with rfl | hp'
              · exact .inl ⟨.inr hor, hscan, ht⟩
              · exact .inr ⟨.inr hor, ⟨p', hp', hscan⟩, ht⟩
        · exact fun q => by rw [hexact, hexact₁, or_assoc, mem_cons_and]
        · exact fun q => by rw [hprefixes, hprefixes₁, or_assoc, mem_cons_and]
    rcases hfold ps _ hstart with ⟨s', hrun, hadds, hexact, hprefixes⟩
    refine ⟨s', hrun, hadds.inv, ?_, ?_, ?_⟩
    · intro q
      rw [hadds.removed]
      simp [start]
    · intro q
      rw [hadds.candidates]
      simp [start]
    · intro ps' hps
      cases hps
      constructor
      · intro q
        rw [hexact]
        simp [start]
      · intro q
        rw [hprefixes]
        simp [start]

end Classification

end Git
end OpenViking
