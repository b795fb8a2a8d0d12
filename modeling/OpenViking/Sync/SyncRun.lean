import OpenViking.Sync.SyncSteps

/-!
# The recursion

One directory after the other, every path that the synchronisation comes to is
settled by the round of its name, and no later round touches it again.
-/

namespace OpenViking
namespace TreeSync

open Paths List

/-- The synchronisation has been at a path. -/
def DoneAt (call : Call) (source target : Tree) (p : Path) (st : State) :
    Prop :=
  (¬ Common source target p ->
    Settled call source target p st ∧ QuietBelow p st) ∧
  (Common source target p ->
    st.target.find p = some .dir ∧ Marked st p [])

/-- The synchronisation has been everywhere at and below a path. -/
def DoneUnder (call : Call) (source target : Tree) (p : Path) (st : State) :
    Prop :=
  forall q, p <+: q -> Reached source target q ->
    DoneAt call source target q st

/-- A file that both trees have is as it was or settled. -/
def KeptUnder (call : Call) (source target : Tree) (p : Path) (st : State) :
    Prop :=
  forall q, p <+: q -> Reached source target q -> forall a b,
    source.find q = some (.file a) -> target.find q = some (.file b) ->
    st.target.find q = some (.file b) ∨ Settled call source target q st

/-- A directory that the recursion enters. -/
def Open (source target : Tree) (d : Path) : Prop :=
  forall r, r <+: d -> Common source target r

variable {d : Path}

theorem reached_concat {source target : Tree} (n : Name)
    (h : Open source target d) : Reached source target (d ++ [n]) := by
  refine ⟨by simp, ?_⟩
  intro r hr
  exact h r (below_append_singleton_iff.mp hr)

variable {n : Name}

theorem open_concat {source target : Tree}
    (h : Open source target d) (hc : Common source target (d ++ [n])) :
    Open source target (d ++ [n]) := by
  intro r hr
  rcases prefix_iff_eq_or_below.mp hr with rfl | hbelow
  · exact hc
  · exact h r (below_append_singleton_iff.mp hbelow)

section Congruence

variable {call : Call} {source target : Tree} {p : Path} {st st' : State}

theorem DoneAt.congr (hsame : SameUnder p st st')
    (h : DoneAt call source target p st) :
    DoneAt call source target p st' := by
  constructor
  · intro hc
    exact ⟨(h.1 hc).1.congr hsame, (h.1 hc).2.congr hsame⟩
  · intro hc
    have hp := hsame p prefix_rfl
    exact ⟨hp.2.1.trans (h.2 hc).1, (h.2 hc).2.congr hp⟩

theorem DoneUnder.congr (hsame : SameUnder p st st')
    (h : DoneUnder call source target p st) :
    DoneUnder call source target p st' :=
  fun q hq hr => (h q hq hr).congr (hsame.narrow hq)

theorem eq_of_reached {q : Path} (hp : ¬ Common source target p)
    (hq : p <+: q) (hr : Reached source target q) : q = p := by
  rcases prefix_iff_eq_or_below.mp hq with heq | hbelow
  · exact heq.symm
  · exact absurd (hr.2 p hbelow) hp

theorem doneUnder_of_settled (hp : ¬ Common source target p)
    (h : Settled call source target p st) (hquiet : QuietBelow p st) :
    DoneUnder call source target p st := by
  intro q hq hr
  rw [eq_of_reached hp hq hr]
  exact ⟨fun _ => ⟨h, hquiet⟩, fun hc => absurd hc hp⟩

theorem keptUnder_of_done (h : DoneUnder call source target p st) :
    KeptUnder call source target p st := by
  intro q hq hr a b hs ht
  refine .inr (((h q hq hr).1 ?_).1)
  intro hc
  have hdir := hc.2.1
  rw [hs] at hdir
  cases hdir

theorem keptUnder_of_same (h : SameUnder p (start source target) st) :
    KeptUnder call source target p st :=
  fun q hq _ _ _ _ ht => .inl ((h q hq).2.1.trans ht)

theorem keptUnder_of_not_files (hp : ¬ Common source target p)
    (hno : forall a b, source.find p = some (.file a) ->
      target.find p ≠ some (.file b)) :
    KeptUnder call source target p st := by
  intro q hq hr a b hs ht
  rw [eq_of_reached hp hq hr] at hs ht
  exact absurd ht (hno a b hs)

end Congruence

/-!
# The pass over the directories
-/

section Rounds

variable {call : Call} {source target : FileTree.Rooted Bytes}

/-- A directory could not be listed. -/
def ListingFails (call : Call) : Prop :=
  exists side p, call.storage.ls side p = false

/-- What is asked of the synchronisation of a directory further down. -/
def SyncsBelow (call : Call) (source target : Tree)
    (sync : Path -> State -> Except State State) (p : Path) : Prop :=
  forall st, SameUnder p (start source target) st ->
    (forall st', sync p st = .ok st' ->
      forall q, Below p q -> Reached source target q ->
        DoneAt call source target q st') ∧
    (forall st', sync p st = .error st' ->
      KeptUnder call source target p st' ∧ ListingFails call)

def dirPass (call : Call) (source : Tree) (d : Path)
    (sync : Path -> State -> Except State State) (lv : Level) (n : Name) :
    Except Level Level :=
  dirStep call d (visibleNames source d fun e => !isFile e) sync lv n

theorem AfterFiles.kept {lv : Level}
    (h : AfterFiles call source.tree target.tree d n lv) :
    KeptUnder call source.tree target.tree (d ++ [n]) lv.st := by
  cases h with
  | waiting h _ => exact keptUnder_of_same h.1
  | settled h quiet hroot _ =>
    have hp : ¬ Common source.tree target.tree (d ++ [n]) := by
      intro hc
      exact hroot (mem_dirNames.mpr ⟨(visible_concat.mp hc.1).2, hc.2.1⟩)
    exact keptUnder_of_done (doneUnder_of_settled hp h quiet)
  | stuck _ a hs ht _ _ _ _ _ =>
    refine keptUnder_of_not_files ?_ ?_
    · intro hc
      have hdir := hc.2.1
      rw [hs] at hdir
      cases hdir
    · intro _ _ _ hfile
      rw [ht] at hfile
      cases hfile
  | cleared _ b hs ht _ _ _ _ _ _ _ =>
    refine keptUnder_of_not_files ?_ ?_
    · intro hc
      have hdir := hc.2.2
      rw [ht] at hdir
      cases hdir
    · intro _ _ hfile
      rw [hs] at hfile
      cases hfile
  | blocked _ b hs ht _ _ _ _ _ _ _ =>
    refine keptUnder_of_not_files ?_ ?_
    · intro hc
      have hdir := hc.2.2
      rw [ht] at hdir
      cases hdir
    · intro _ _ hfile
      rw [hs] at hfile
      cases hfile

variable {p : Path}

private theorem not_common_of_source {e : Option (Entry Bytes)}
    (hs : source.tree.find p = e) (he : e ≠ some .dir) :
    ¬ Common source.tree target.tree p := by
  intro hc
  rw [hc.2.1] at hs
  exact he hs.symm

private theorem not_common_of_target {e : Option (Entry Bytes)}
    (ht : target.tree.find p = e) (he : e ≠ some .dir) :
    ¬ Common source.tree target.tree p := by
  intro hc
  rw [hc.2.2] at ht
  exact he ht.symm

/-- A name that the pass over the directories does not come to is settled. -/
theorem AfterFiles.done {lv : Level}
    (h : AfterFiles call source.tree target.tree d n lv)
    (hroot : n ∉ visibleNames source.tree d fun e => !isFile e)
    (htarget : n ∉ lv.targetDirs) :
    DoneUnder call source.tree target.tree (d ++ [n]) lv.st := by
  have hp : ¬ Common source.tree target.tree (d ++ [n]) := by
    intro hc
    exact hroot (mem_dirNames.mpr ⟨(visible_concat.mp hc.1).2, hc.2.1⟩)
  cases h with
  | waiting h hno =>
    refine doneUnder_of_settled hp ?_ (quietBelow_of_same h.1)
    cases hn : hidden n with
    | true =>
      refine .hidden ?_ h.1
      intro hvisible
      rw [(visible_concat.mp hvisible).2] at hn
      cases hn
    | false =>
      rcases hno hn with ⟨hs, ht⟩
      refine .absent ?_ ?_ h.1
      · cases hfind : source.tree.find (d ++ [n]) with
        | none => rfl
        | some e =>
          cases e with
          | file a => exact absurd hfind (hs a)
          | dir => exact absurd (mem_dirNames.mpr ⟨hn, hfind⟩) hroot
      · cases hfind : target.tree.find (d ++ [n]) with
        | none => rfl
        | some e =>
          cases e with
          | file b => exact absurd hfind (ht b)
          | dir =>
            rw [h.2.2] at htarget
            exact absurd (mem_dirNames.mpr ⟨hn, hfind⟩) htarget
  | settled h quiet _ _ => exact doneUnder_of_settled hp h quiet
  | stuck _ _ _ _ _ _ _ _ hdir => exact absurd hdir htarget
  | cleared hn _ hs _ _ _ _ _ _ _ _ =>
    exact absurd (mem_dirNames.mpr ⟨hn, hs⟩) hroot
  | blocked hn _ hs _ _ _ _ _ _ _ _ =>
    exact absurd (mem_dirNames.mpr ⟨hn, hs⟩) hroot

private theorem same_source {st : State}
    (h : SameUnder p (start source.tree target.tree) st) :
    forall q, p <+: q -> st.source.find q = source.tree.find q :=
  fun q hq => (h q hq).1

variable {sync : Path -> State -> Except State State} {lv lv' : Level}

section

variable (hd : Visible d) (h : Waiting source.tree target.tree d n lv)
    (hn : hidden n = false)

include hd h hn

theorem dirPass_added
    (hs : source.tree.find (d ++ [n]) = some .dir)
    (ht : target.tree.find (d ++ [n]) = none)
    (hstep : dirPass call source.tree d sync lv n = .ok lv') :
    DoneUnder call source.tree target.tree (d ++ [n]) lv'.st := by
  have hv : Visible (d ++ [n]) := visible_concat.mpr ⟨hd, hn⟩
  have hdir : n ∉ lv.targetDirs := by
    rw [h.2.2, mem_dirNames, ht]
    simp
  have hfile : n ∉ lv.targetFiles := by
    rw [h.2.1, mem_fileNames, ht]
    simp
  unfold dirPass dirStep at hstep
  rw [if_pos (mem_dirNames.mpr ⟨hn, hs⟩), if_neg hfile, if_neg hdir] at hstep
  cases hstep
  have hfree : forall q, d ++ [n] <+: q -> lv.st.target.find q = none := by
    intro q hq
    rw [(h.1 q hq).2.1]
    rcases prefix_iff_eq_or_below.mp hq with rfl | hbelow
    · exact ht
    · exact target.none_below (by rw [ht]; simp) hbelow
  have hmarked : Marked lv.st (d ++ [n]) [] :=
    marked_of_sameAt_start (h.1 _ prefix_rfl)
  exact doneUnder_of_settled (not_common_of_target ht (by simp))
    (.added hv .dir hs ht (addEntry_marked hmarked)
      (addEntry_arrived (same_source h.1) hs hfree))
    (addEntry_quiet (quietBelow_of_same h.1))

theorem dirPass_leftover
    (hs : source.tree.find (d ++ [n]) = none)
    (ht : target.tree.find (d ++ [n]) = some .dir)
    (hstep : dirPass call source.tree d sync lv n = .ok lv') :
    DoneUnder call source.tree target.tree (d ++ [n]) lv'.st := by
  have hv : Visible (d ++ [n]) := visible_concat.mpr ⟨hd, hn⟩
  have hroot : n ∉ visibleNames source.tree d fun e => !isFile e := by
    rw [mem_dirNames, hs]
    simp
  have hdir : n ∈ lv.targetDirs := by
    rw [h.2.2, mem_dirNames]
    exact ⟨hn, ht⟩
  unfold dirPass dirStep at hstep
  rw [if_neg hroot, if_pos hdir] at hstep
  cases hstep
  have hmarked : Marked lv.st (d ++ [n]) [] :=
    marked_of_sameAt_start (h.1 _ prefix_rfl)
  refine doneUnder_of_settled (not_common_of_source hs (by simp)) ?_
    (dropDir_quiet (quietBelow_of_same h.1))
  by_cases hrm : Removes call .leftoverDir (d ++ [n])
  · have hdone := dropDir_done lv.st hrm
    exact .removed hv .dir hs ht (hdone.1 [] hmarked) hdone.2
  · exact .leftover hv .dir hs ht
      (hmarked.of_diff_eq (dropDir_failed lv.st hrm).1)
      (fun hboth => hrm hboth.2)

end

theorem dirPass_common (hlocal : SyncLocal sync)
    (hsync : SyncsBelow call source.tree target.tree sync (d ++ [n]))
    (h : Waiting source.tree target.tree d n lv)
    (hc : Common source.tree target.tree (d ++ [n]))
    (hstep : dirPass call source.tree d sync lv n = .ok lv') :
    DoneUnder call source.tree target.tree (d ++ [n]) lv'.st := by
  have hn := (visible_concat.mp hc.1).2
  have hdir : n ∈ lv.targetDirs := by
    rw [h.2.2, mem_dirNames]
    exact ⟨hn, hc.2.2⟩
  have hfile : n ∉ lv.targetFiles := by
    rw [h.2.1, mem_fileNames, hc.2.2]
    simp
  unfold dirPass dirStep at hstep
  dsimp only at hstep
  rw [if_pos (mem_dirNames.mpr ⟨hn, hc.2.1⟩), if_neg hfile, if_pos hdir] at hstep
  split at hstep
  next st heq =>
    cases hstep
    intro q hq hr
    rcases prefix_iff_eq_or_below.mp hq with rfl | hbelow
    · have hsame : SameAt (d ++ [n]) (start source.tree target.tree) st :=
        (h.1 _ prefix_rfl).trans
          (hlocal _ _ _ (Or.inl heq) _ (not_below_self _))
      exact ⟨fun hnc => absurd hc hnc,
        fun _ => ⟨hsame.2.1.trans hc.2.2, marked_of_sameAt_start hsame⟩⟩
    · exact (hsync lv.st h.1).1 st heq q hbelow hr
  next st heq => cases hstep

/-- A directory that could not be removed for a file: it is tried again, and
the file is not there in the end. -/
theorem dirPass_stuck {a : Bytes}
    (hv : Visible (d ++ [n]))
    (hs : source.tree.find (d ++ [n]) = some (.file a))
    (ht : target.tree.find (d ++ [n]) = some .dir)
    (failed : ¬ Removes call .dirForFile (d ++ [n]))
    (marked : Marked lv.st (d ++ [n]) [.addedFile])
    (quiet : QuietBelow (d ++ [n]) lv.st)
    (kept : lv.st.target.find (d ++ [n]) = some .dir)
    (hdir : n ∈ lv.targetDirs)
    (hstep : dirPass call source.tree d sync lv n = .ok lv') :
    DoneUnder call source.tree target.tree (d ++ [n]) lv'.st := by
  have hroot : n ∉ visibleNames source.tree d fun e => !isFile e := by
    rw [mem_dirNames, hs]
    simp
  unfold dirPass dirStep at hstep
  rw [if_neg hroot, if_pos hdir] at hstep
  cases hstep
  refine doneUnder_of_settled (not_common_of_source hs (by simp)) ?_
    (dropDir_quiet quiet)
  by_cases hrm : Removes call .leftoverDir (d ++ [n])
  · have hdone := dropDir_done lv.st hrm
    have hmark := hdone.1 _ marked
    have hgone := hdone.2 _ prefix_rfl
    refine .fileStuck hv a hs ht failed ?_ ?_ ?_
    · exact (hmark .addedFile).mpr (by simp)
    · intro c hmem
      rcases mem_cons.mp ((hmark c).mp hmem) with rfl | hadded
      · exact .inr ⟨rfl, hgone⟩
      · exact .inl (mem_singleton.mp hadded)
    · intro b hb
      rw [hgone] at hb
      cases hb
  · rcases dropDir_failed lv.st hrm with ⟨hdiff, hkept⟩
    have hmark := marked.of_diff_eq hdiff
    refine .fileStuck hv a hs ht failed ?_ ?_ ?_
    · exact (hmark .addedFile).mpr (by simp)
    · intro c hmem
      exact .inl (mem_singleton.mp ((hmark c).mp hmem))
    · intro b hb
      rw [hkept, kept] at hb
      cases hb

theorem dirOverFile_settled {b : Bytes} {st : State}
    (hv : Visible p) (hs : source.tree.find p = some .dir)
    (ht : target.tree.find p = some (.file b))
    (clear : Removes call .fileForDir p ∨ Removes call .fileForDirAgain p)
    (marked : Marked st p [.deletedFile]) (quiet : QuietBelow p st)
    (same : forall q, p <+: q -> st.source.find q = source.tree.find q)
    (gone : forall q, p <+: q -> st.target.find q = none) :
    DoneUnder call source.tree target.tree p
      (addEntry call .addedDir p st) := by
  refine doneUnder_of_settled (not_common_of_target ht (by simp))
    (.dirOverFile hv b hs ht clear ?_ ?_ (addEntry_arrived same hs gone))
    (addEntry_quiet quiet)
  · intro c
    rw [addEntry_marked marked c]
    simp [or_comm]
  · intro b' hb'
    rcases addEntry_target call .addedDir p st p with heq | heq | heq
    · rw [heq, gone p prefix_rfl] at hb'
      cases hb'
    · rw [heq, same p prefix_rfl, hs] at hb'
      cases hb'
    · rw [heq] at hb'
      cases hb'

section

variable {b : Bytes} (hd : Visible d) (hn : hidden n = false)
    (hs : source.tree.find (d ++ [n]) = some .dir) (ht : target.tree.find (d ++ [n]) = some (.file b))

include hd hn hs ht

theorem dirPass_cleared (clear : Removes call .fileForDir (d ++ [n]))
    (marked : Marked lv.st (d ++ [n]) [.deletedFile])
    (quiet : QuietBelow (d ++ [n]) lv.st)
    (same : forall q, d ++ [n] <+: q ->
      lv.st.source.find q = source.tree.find q)
    (gone : forall q, d ++ [n] <+: q -> lv.st.target.find q = none)
    (hfile : n ∉ lv.targetFiles) (hdir : n ∉ lv.targetDirs)
    (hstep : dirPass call source.tree d sync lv n = .ok lv') :
    DoneUnder call source.tree target.tree (d ++ [n]) lv'.st := by
  have hv : Visible (d ++ [n]) := visible_concat.mpr ⟨hd, hn⟩
  unfold dirPass dirStep at hstep
  rw [if_pos (mem_dirNames.mpr ⟨hn, hs⟩), if_neg hfile, if_neg hdir] at hstep
  cases hstep
  exact dirOverFile_settled hv hs ht (Or.inl clear) marked quiet same gone

theorem dirPass_blocked (failed : ¬ Removes call .fileForDir (d ++ [n]))
    (marked : Marked lv.st (d ++ [n]) [])
    (quiet : QuietBelow (d ++ [n]) lv.st)
    (same : forall q, d ++ [n] <+: q ->
      lv.st.source.find q = source.tree.find q)
    (kept : lv.st.target.find (d ++ [n]) = some (.file b))
    (hfile : n ∈ lv.targetFiles)
    (hstep : dirPass call source.tree d sync lv n = .ok lv') :
    DoneUnder call source.tree target.tree (d ++ [n]) lv'.st := by
  have hv : Visible (d ++ [n]) := visible_concat.mpr ⟨hd, hn⟩
  have hquiet := dropFile_quiet call .fileForDirAgain quiet
  unfold dirPass dirStep at hstep
  dsimp only at hstep
  rw [if_pos (mem_dirNames.mpr ⟨hn, hs⟩), if_pos hfile] at hstep
  by_cases hrm : Removes call .fileForDirAgain (d ++ [n])
  · rcases dropFile_done lv.st hrm with ⟨st, heq, hsrc, hmark, hgone⟩
    rw [heq] at hstep hquiet
    cases hstep
    refine dirOverFile_settled hv hs ht (Or.inr hrm) (hmark [] marked) hquiet
      ?_ hgone
    intro q hq
    rw [hsrc]
    exact same q hq
  · rcases dropFile_failed lv.st hrm with ⟨st, heq, hsrc, hdiff, hkept, _⟩
    rw [heq] at hstep hquiet
    cases hstep
    have hsp : st.source.find (d ++ [n]) = some .dir := by
      rw [hsrc, same _ prefix_rfl]
      exact hs
    have htp : st.target.find (d ++ [n]) = some (.file b) := hkept.trans kept
    -- a directory is not moved onto a file
    have hmv : addEntry call .addedDir (d ++ [n]) st =
        st.record .addedDir (d ++ [n]) := by
      unfold addEntry mv
      rw [record_source, record_target, hsp, htp]
    refine doneUnder_of_settled (not_common_of_target ht (by simp))
      (.dirStuck hv b hs ht ⟨failed, hrm⟩
        (addEntry_marked (marked.of_diff_eq hdiff)) ?_)
      (addEntry_quiet hquiet)
    show (addEntry call .addedDir (d ++ [n]) st).target.find _ = _
    rw [hmv]
    exact htp

end

/-- What one round of the pass over the directories does. -/
theorem dirPass_done (hlocal : SyncLocal sync)
    (hsync : Common source.tree target.tree (d ++ [n]) ->
      SyncsBelow call source.tree target.tree sync (d ++ [n]))
    (hd : Visible d)
    (h : AfterFiles call source.tree target.tree d n lv)
    (hstep : dirPass call source.tree d sync lv n = .ok lv') :
    DoneUnder call source.tree target.tree (d ++ [n]) lv'.st := by
  have hidle : (n ∉ visibleNames source.tree d fun e => !isFile e) ->
      n ∉ lv.targetDirs -> lv' = lv := by
    intro hroot hdir
    unfold dirPass dirStep at hstep
    rw [if_neg hroot, if_neg hdir] at hstep
    cases hstep
    rfl
  cases h with
  | waiting hw hno =>
    have hdone : (n ∉ visibleNames source.tree d fun e => !isFile e) ->
        n ∉ lv.targetDirs ->
        DoneUnder call source.tree target.tree (d ++ [n]) lv'.st := by
      intro hroot hdir
      rw [hidle hroot hdir]
      exact (AfterFiles.waiting hw hno).done hroot hdir
    cases hn : hidden n with
    | true =>
      refine hdone ?_ ?_
      · rw [mem_dirNames, hn]
        simp
      · rw [hw.2.2, mem_dirNames, hn]
        simp
    | false =>
      rcases hno hn with ⟨hsf, htf⟩
      cases hs : source.tree.find (d ++ [n]) with
      | none =>
        cases ht : target.tree.find (d ++ [n]) with
        | none =>
          refine hdone ?_ ?_
          · rw [mem_dirNames, hs]
            simp
          · rw [hw.2.2, mem_dirNames, ht]
            simp
        | some e =>
          cases e with
          | file b => exact absurd ht (htf b)
          | dir => exact dirPass_leftover hd hw hn hs ht hstep
      | some e =>
        cases e with
        | file a => exact absurd hs (hsf a)
        | dir =>
          cases ht : target.tree.find (d ++ [n]) with
          | none => exact dirPass_added hd hw hn hs ht hstep
          | some e =>
            cases e with
            | file b => exact absurd ht (htf b)
            | dir =>
              have hc : Common source.tree target.tree (d ++ [n]) :=
                ⟨visible_concat.mpr ⟨hd, hn⟩, hs, ht⟩
              exact dirPass_common hlocal (hsync hc) hw hc hstep
  | settled hsettled quiet hroot hdir =>
    rw [hidle hroot hdir]
    exact (AfterFiles.settled hsettled quiet hroot hdir).done hroot hdir
  | stuck hn a hs ht failed marked quiet kept hdir =>
    exact dirPass_stuck (visible_concat.mpr ⟨hd, hn⟩) hs ht failed marked quiet kept hdir hstep
  | cleared hn b hs ht clear marked quiet same gone hfile hdir =>
    exact dirPass_cleared hd hn hs ht clear marked quiet same gone hfile hdir
      hstep
  | blocked hn b hs ht failed marked quiet same kept _ hfile =>
    exact dirPass_blocked hd hn hs ht failed marked quiet same kept hfile hstep

/-- A round is broken off only in the recursion. -/
theorem dirPass_broken
    (hsync : Common source.tree target.tree (d ++ [n]) ->
      SyncsBelow call source.tree target.tree sync (d ++ [n]))
    (hd : Visible d)
    (h : AfterFiles call source.tree target.tree d n lv)
    (hstep : dirPass call source.tree d sync lv n = .error lv') :
    KeptUnder call source.tree target.tree (d ++ [n]) lv'.st ∧
      ListingFails call := by
  unfold dirPass dirStep at hstep
  dsimp only at hstep
  split at hstep
  next hroot =>
    have hsource := mem_dirNames.mp hroot
    split at hstep
    · split at hstep
      · cases hstep
      · cases hstep
    next hfile =>
      split at hstep
      next hdir =>
        split at hstep
        · cases hstep
        next st heq =>
          cases hstep
          cases h with
          | waiting hw _ =>
            rw [hw.2.2, mem_dirNames] at hdir
            have hc : Common source.tree target.tree (d ++ [n]) :=
              ⟨visible_concat.mpr ⟨hd, hsource.1⟩, hsource.2, hdir.2⟩
            exact (hsync hc lv.st hw.1).2 st heq
          | settled _ _ hno _ => exact absurd hroot hno
          | stuck _ _ hs _ _ _ _ _ _ =>
            rw [hs] at hsource
            exact absurd hsource.2 (by simp)
          | cleared _ _ _ _ _ _ _ _ _ _ hno =>
            exact absurd hdir hno
          | blocked _ _ _ _ _ _ _ _ _ _ hno =>
            exact absurd hno hfile
      · cases hstep
  · split at hstep
    · cases hstep
    · cases hstep

end Rounds

/-!
# Whole directories
-/

section Directories

variable {call : Call} {source target : FileTree.Rooted Bytes}

private theorem waiting_apart (call : Call) (S T : Tree) (d : Path) :
    Folds.Apart (filePass call S d) (Waiting S T d) := by
  intro lv a b hne h
  have hsame := (fileStep_touches call d (visibleNames S d isFile)
    (visibleNames S d fun e => !isFile e) lv a).sibling hne
  have hnames := fileStep_sameNames call d (visibleNames S d isFile)
    (visibleNames S d fun e => !isFile e) lv a b hne
  exact ⟨h.1.trans hsame, hnames.1.trans h.2.1, hnames.2.trans h.2.2⟩

theorem AfterFiles.congr {S T : Tree} (hsame : SameUnder (d ++ [n]) lv.st lv'.st)
    (hfiles : n ∈ lv'.targetFiles <-> n ∈ lv.targetFiles)
    (hdirs : n ∈ lv'.targetDirs <-> n ∈ lv.targetDirs)
    (h : AfterFiles call S T d n lv) : AfterFiles call S T d n lv' := by
  have hp := hsame (d ++ [n]) prefix_rfl
  cases h with
  | waiting h hno =>
    exact .waiting ⟨h.1.trans hsame, hfiles.trans h.2.1, hdirs.trans h.2.2⟩ hno
  | settled h quiet hroot hdir =>
    exact .settled (h.congr hsame) (quiet.congr hsame) hroot
      (fun hmem => hdir (hdirs.mp hmem))
  | stuck hn a hs ht failed marked quiet kept hdir =>
    exact .stuck hn a hs ht failed (marked.congr hp) (quiet.congr hsame)
      (hp.2.1.trans kept) (hdirs.mpr hdir)
  | cleared hn b hs ht clear marked quiet same gone hfile hdir =>
    exact .cleared hn b hs ht clear (marked.congr hp) (quiet.congr hsame)
      (fun q hq => (hsame q hq).1.trans (same q hq))
      (fun q hq => (hsame q hq).2.1.trans (gone q hq))
      (fun hmem => hfile (hfiles.mp hmem))
      (fun hmem => hdir (hdirs.mp hmem))
  | blocked hn b hs ht failed marked quiet same kept below hfile =>
    exact .blocked hn b hs ht failed (marked.congr hp) (quiet.congr hsame)
      (fun q hq => (hsame q hq).1.trans (same q hq))
      (hp.2.1.trans kept)
      (fun q hq => (hsame q hq.isPrefix).2.1.trans (below q hq))
      (hfiles.mpr hfile)

private theorem afterFiles_apart (S T : Tree) (d : Path) :
    Folds.Apart (filePass call S d) (AfterFiles call S T d) := by
  intro lv a b hne h
  have hnames := fileStep_sameNames call d (visibleNames S d isFile)
    (visibleNames S d fun e => !isFile e) lv a b hne
  exact h.congr ((fileStep_touches call d _ _ lv a).sibling hne) hnames.1 hnames.2

variable {names : List Name}

theorem filePass_all (call : Call) {lv : Level}
    (hd : Visible d) (hnodup : names.Nodup)
    (hnames : forall n, n ∈ names <->
      n ∈ visibleNames source.tree d isFile ∨ n ∈ lv.targetFiles)
    (hstart : forall n, Waiting source.tree target.tree d n lv) (n : Name) :
    AfterFiles call source.tree target.tree d n
      (names.foldl (filePass call source.tree d) lv) := by
  by_cases hmem : n ∈ names
  · exact Folds.foldl_each (waiting_apart call _ _ d)
      (afterFiles_apart _ _ d) (fun _ _ h => filePass_after hd h)
      hnodup (fun m _ => hstart m) n hmem
  refine .waiting (Folds.foldl_of_notMem (waiting_apart call _ _ d) hmem
    (hstart n)) ?_
  rw [hnames, not_or] at hmem
  intro hn
  constructor
  · intro a ha
    exact hmem.1 (mem_fileNames.mpr ⟨hn, a, ha⟩)
  · intro b hb
    refine hmem.2 ?_
    rw [(hstart n).2.1, mem_fileNames]
    exact ⟨hn, b, hb⟩

private theorem afterFiles_apartM {S T : Tree} (hlocal : SyncLocal sync) :
    Folds.ApartM (dirPass call S d sync) (AfterFiles call S T d) := by
  intro lv a b hne h lv' hstep
  have hloc := dirStep_local
    (fun p st st' hp => (hlocal p st st' hp).touches) hstep
  have hnames := hloc.2 b hne
  exact h.congr (hloc.1.sibling hne) hnames.1 hnames.2

private theorem doneUnder_apartM {S T : Tree} (hlocal : SyncLocal sync) :
    Folds.ApartM (dirPass call S d sync)
      (fun n lv => DoneUnder call S T (d ++ [n]) lv.st) := by
  intro lv a b hne h lv' hstep
  have hloc := dirStep_local
    (fun p st st' hp => (hlocal p st st' hp).touches) hstep
  exact h.congr (hloc.1.sibling hne)

section

variable (hlocal : SyncLocal sync)
    (hsync : forall n, Common source.tree target.tree (d ++ [n]) -> SyncsBelow call source.tree target.tree sync (d ++ [n])) (hd : Visible d) (hnodup : names.Nodup)

include hlocal hsync hd hnodup

theorem dirPass_all (hnames : forall n, n ∈ names <->
      (n ∈ visibleNames source.tree d fun e => !isFile e) ∨
        n ∈ lv.targetDirs)
    (hstart : forall n, AfterFiles call source.tree target.tree d n lv)
    (h : names.foldlM (dirPass call source.tree d sync) lv = .ok lv')
    (n : Name) :
    DoneUnder call source.tree target.tree (d ++ [n]) lv'.st := by
  by_cases hmem : n ∈ names
  · exact Folds.foldlM_each (afterFiles_apartM hlocal) (doneUnder_apartM hlocal)
      (fun _ m _ hm hstep => dirPass_done hlocal (hsync m) hd hm hstep)
      hnodup (fun m _ => hstart m) h n hmem
  · have hno := hmem
    rw [hnames, not_or] at hno
    exact Folds.foldlM_of_notMem
      (fun m lv => DoneUnder call source.tree target.tree (d ++ [m]) lv.st)
      (doneUnder_apartM hlocal) hmem ((hstart n).done hno.1 hno.2) lv'
      (Or.inl h)

theorem dirPass_all_broken
    (hstart : forall n, AfterFiles call source.tree target.tree d n lv)
    (h : names.foldlM (dirPass call source.tree d sync) lv = .error lv')
    (n : Name) :
    KeptUnder call source.tree target.tree (d ++ [n]) lv'.st := by
  by_cases hmem : n ∈ names
  · rcases Folds.foldlM_broken
      (fun m lv => KeptUnder call source.tree target.tree (d ++ [m]) lv.st)
      (afterFiles_apartM hlocal) (doneUnder_apartM hlocal)
      (fun _ m _ hm hstep => dirPass_done hlocal (hsync m) hd hm hstep)
      (fun _ m _ hm hstep => (dirPass_broken (hsync m) hd hm hstep).1)
      hnodup (fun m _ => hstart m) h n hmem with hbefore | hafter | hbroken
    · exact hbefore.kept
    · exact keptUnder_of_done hafter
    · exact hbroken
  · exact (Folds.foldlM_of_notMem _ (afterFiles_apartM hlocal) hmem (hstart n)
      lv' (Or.inr h)).kept

end

theorem listChildren_eq_some {side : Side} {t : Tree}
    {files dirs : List Name}
    (h : listChildren call side t d = some (files, dirs)) :
    files = visibleNames t d isFile ∧
      dirs = visibleNames t d fun e => !isFile e := by
  unfold listChildren at h
  split at h
  · cases h
    exact ⟨rfl, rfl⟩
  · cases h

theorem listChildren_some {side : Side} {t : Tree}
    (hls : call.storage.ls side d = true) (hdir : t.find d = some .dir) :
    listChildren call side t d =
      some (visibleNames t d isFile, visibleNames t d fun e => !isFile e) := by
  unfold listChildren
  rw [hls, hdir]
  rfl

theorem fileStep_congr {rf rf' rd rd' : List Name}
    (hf : forall n, n ∈ rf <-> n ∈ rf') (hd : forall n, n ∈ rd <-> n ∈ rd') :
    fileStep call d rf rd = fileStep call d rf' rd' := by
  funext lv n
  unfold fileStep
  simp only [hf n, hd n]

theorem dirStep_congr {rd rd' : List Name}
    (hd : forall n, n ∈ rd <-> n ∈ rd') :
    dirStep call d rd sync = dirStep call d rd' sync := by
  funext lv n
  unfold dirStep
  simp only [hd n]

/-- A synchronised directory: every name in it has been dealt with. -/
theorem syncDir_spec (call : Call)
    (hopen : Open source.tree target.tree d) (fuel : Nat)
    (hfuel : forall q e, source.tree.find q = some e ->
      q.length < d.length + fuel) :
    SyncsBelow call source.tree target.tree (syncDir call fuel) d := by
  induction fuel generalizing d with
  | zero =>
    have hlen := hfuel d .dir (hopen d prefix_rfl).2.1
    omega
  | succ fuel ih =>
    have hlocal := syncDir_touches call fuel
    have hd := (hopen d prefix_rfl).1
    have hsync : forall n, Common source.tree target.tree (d ++ [n]) ->
        SyncsBelow call source.tree target.tree (syncDir call fuel)
          (d ++ [n]) := by
      intro n hc
      refine ih (open_concat hopen hc) ?_
      intro q e hq
      have hlen := hfuel q e hq
      rw [length_append, length_singleton]
      omega
    intro st hst
    have hmem : forall (test : Entry Bytes -> Bool) (n : Name),
        (n ∈ visibleNames st.source d test <->
          n ∈ visibleNames source.tree d test) ∧
        (n ∈ visibleNames st.target d test <->
          n ∈ visibleNames target.tree d test) := by
      intro test n
      have hsame := hst (d ++ [n]) (prefix_append d [n])
      rw [mem_visibleNames, mem_visibleNames, mem_visibleNames,
        mem_visibleNames, hsame.1, hsame.2.1]
      exact ⟨Iff.rfl, Iff.rfl⟩
    have hbelow : forall q, Below d q -> exists n, d ++ [n] <+: q := by
      intro q hq
      rcases below_iff_exists.mp hq with ⟨r, hr, rfl⟩
      cases r with
      | nil => exact absurd rfl hr
      | cons n rest =>
        exact ⟨n, by simp⟩
    rw [syncDir]
    split
    next rf rd tf td hroot htarget =>
      rcases listChildren_eq_some hroot with ⟨rfl, rfl⟩
      rcases listChildren_eq_some htarget with ⟨rfl, rfl⟩
      rw [fileStep_congr (fun n => (hmem isFile n).1)
        (fun n => (hmem (fun e => !isFile e) n).1),
        dirStep_congr (fun n => (hmem (fun e => !isFile e) n).1)]
      have hwaiting : forall n, Waiting source.tree target.tree d n
          ⟨st, visibleNames st.target d isFile,
            visibleNames st.target d fun e => !isFile e⟩ := by
        intro n
        exact ⟨hst.narrow (prefix_append d [n]),
          (hmem isFile n).2, (hmem (fun e => !isFile e) n).2⟩
      have hfiles := filePass_all call hd
        (nodup_sortedNames (visibleNames st.source d isFile ++
          visibleNames st.target d isFile))
        (by
          intro n
          rw [mem_sortedNames, mem_append, (hmem isFile n).1])
        hwaiting
      dsimp only
      generalize hlv : (sortedNames (visibleNames st.source d isFile ++
        visibleNames st.target d isFile)).foldl _ _ = lv
      rw [show (sortedNames (visibleNames st.source d isFile ++
        visibleNames st.target d isFile)).foldl
          (filePass call source.tree d) _ = lv from hlv] at hfiles
      have hnames : forall n, n ∈ sortedNames
          ((visibleNames st.source d fun e => !isFile e) ++ lv.targetDirs) <->
          (n ∈ visibleNames source.tree d fun e => !isFile e) ∨
            n ∈ lv.targetDirs := by
        intro n
        rw [mem_sortedNames, mem_append, (hmem (fun e => !isFile e) n).1]
      constructor
      · intro st' h q hq hr
        split at h
        next lv' heq =>
          cases h
          rcases hbelow q hq with ⟨n, hpre⟩
          exact dirPass_all hlocal hsync hd (nodup_sortedNames _)
            hnames hfiles heq n q hpre hr
        next lv' heq => cases h
      · intro st' h
        split at h
        next lv' heq => cases h
        next lv' heq =>
          cases h
          constructor
          · intro q hq hr a b hs ht
            rcases prefix_iff_eq_or_below.mp hq with rfl | hbel
            · rw [(hopen d prefix_rfl).2.1] at hs
              cases hs
            · rcases hbelow q hbel with ⟨n, hpre⟩
              exact dirPass_all_broken hlocal hsync hd
                (nodup_sortedNames _) hfiles heq n q hpre hr a b hs ht
          · rcases Folds.foldlM_error_round (afterFiles_apartM hlocal)
              (nodup_sortedNames _) (fun n _ => hfiles n) heq with
              ⟨n, t, ht, hround⟩
            exact (dirPass_broken (hsync n) hd ht hround).2
    next hno =>
      constructor
      · rintro _ ⟨⟩
      intro st' h
      cases h
      refine ⟨keptUnder_of_same hst, ?_⟩
      have hdp := hst d prefix_rfl
      have hc := hopen d prefix_rfl
      have hroot : st.source.find d = some .dir := hdp.1.trans hc.2.1
      have htarget : st.target.find d = some .dir := hdp.2.1.trans hc.2.2
      cases hr : call.storage.ls .root d with
      | false => exact ⟨.root, d, hr⟩
      | true =>
        cases ht : call.storage.ls .target d with
        | false => exact ⟨.target, d, ht⟩
        | true =>
          exact (hno _ _ _ _ (listChildren_some hr hroot)
            (listChildren_some ht htarget)).elim

end Directories

end TreeSync
end OpenViking
