import OpenViking.Sync.SyncMirrors

/-!
# When the synchronisation keeps its promise
-/

namespace OpenViking
namespace TreeSync

open Paths Assoc List

section Runs

variable {call : Call} {source target : FileTree.Rooted Bytes} {st : State}

/-!
# The diff of a run without failures
-/

variable {p q : Path}

/-- What is added has an entry on the way, and not a file on both sides. -/
theorem Added.on_the_way (h : Added source.tree target.tree q) (hpre : p <+: q) :
    source.tree.find p ≠ none ∧
      forall a b, source.tree.find p = some (.file a) ->
        target.tree.find p = some (.file b) -> False := by
  rcases prefix_iff_eq_or_below.mp hpre with rfl | hbelow
  · constructor
    · intro hnone
      apply h.1
      rw [kindAt, hnone]
      rfl
    · intro a b hs ht
      apply h.2
      rw [kindAt_of_find hs, kindAt_of_find ht]
      rfl
  · have hdir : source.tree.find p = some .dir := by
      by_contra hne
      apply h.1
      rw [kindAt, source.none_below hne hbelow]
      rfl
    rw [hdir]
    exact ⟨by simp, fun a b hs => by cases hs⟩

section

variable (hno : NoFailures call) (hv : Visible p)
    (h : Settled call source.tree target.tree p st) (hpre : p <+: q)

include hno hv h hpre

/-- An added entry is listed, or a directory above it is. -/
theorem Settled.added_listed (hadded : Added source.tree target.tree q) :
    p ∈ st.diff.addedFiles ∨ p ∈ st.diff.addedDirs := by
  rcases hadded.on_the_way hpre with ⟨hsource, hfiles⟩
  cases h with
  | hidden hhidden _ => exact absurd hv hhidden
  | absent hs _ _ => exact absurd hs hsource
  | added _ e _ _ marked _ =>
    have hmem := (marked (addedOf e)).mpr (by simp)
    cases e with
    | file a => exact .inl hmem
    | dir => exact .inr hmem
  | unchanged _ a b hs ht _ _ => exact (hfiles a b hs ht).elim
  | updated _ a b hs ht _ _ _ => exact (hfiles a b hs ht).elim
  | removed _ _ hs _ _ _ => exact absurd hs hsource
  | leftover _ _ hs _ _ _ => exact absurd hs hsource
  | fileOverDir _ _ _ _ _ marked _ _ _ =>
    exact .inl ((marked .addedFile).mpr (by simp))
  | fileStuck _ _ _ _ stuck _ _ _ => exact absurd (hno.rm _ _) stuck
  | dirOverFile _ _ _ _ _ marked _ _ =>
    exact .inr ((marked .addedDir).mpr (by simp))
  | dirStuck _ _ _ _ stuck _ _ => exact absurd (hno.rm _ _) stuck.1

/-- A deleted entry is listed, or a directory above it is. -/
theorem Settled.deleted_listed (hdeleted : Deleted source.tree target.tree q) :
    p ∈ st.diff.deletedFiles ∨ p ∈ st.diff.deletedDirs := by
  rcases Added.on_the_way hdeleted hpre with ⟨htarget, hfiles⟩
  cases h with
  | hidden hhidden _ => exact absurd hv hhidden
  | absent _ ht _ => exact absurd ht htarget
  | added _ _ _ ht _ _ => exact absurd ht htarget
  | unchanged _ a b hs ht _ _ => exact (hfiles b a ht hs).elim
  | updated _ a b hs ht _ _ _ => exact (hfiles b a ht hs).elim
  | removed _ e _ _ marked _ =>
    have hmem := (marked (deletedOf e)).mpr (by simp)
    cases e with
    | file a => exact .inl hmem
    | dir => exact .inr hmem
  | leftover _ _ _ _ _ failed =>
    exact absurd ⟨hno.rm _ _, hno.rm _ _⟩ failed
  | fileOverDir _ _ _ _ _ marked _ _ _ =>
    exact .inr ((marked .deletedDir).mpr (by simp))
  | fileStuck _ _ _ _ stuck _ _ _ => exact absurd (hno.rm _ _) stuck
  | dirOverFile _ _ _ _ _ marked _ _ =>
    exact .inl ((marked .deletedFile).mpr (by simp))
  | dirStuck _ _ _ _ stuck _ _ => exact absurd (hno.rm _ _) stuck.1

end

/-- What a mark says of the two trees. -/
def MarkMeans (call : Call) (S T : Tree) (p : Path) : Change -> Prop
  | .addedFile => Added S T p ∧ exists a, S.find p = some (.file a)
  | .addedDir => Added S T p ∧ S.find p = some .dir
  | .deletedFile => Deleted S T p ∧ exists b, T.find p = some (.file b)
  | .deletedDir => Deleted S T p ∧ T.find p = some .dir
  | .updatedFile => exists a b, S.find p = some (.file a) ∧
      T.find p = some (.file b) ∧ judgedChanged call p a b = true

theorem Settled.of_mark {c : Change} (hno : NoFailures call)
    (h : Settled call source.tree target.tree p st)
    (hmem : p ∈ st.diff.list c) :
    MarkMeans call source.tree target.tree p c := by
  cases h with
  | hidden _ same =>
    exact absurd hmem (same.marked.unlisted c)
  | absent _ _ same =>
    exact absurd hmem (same.marked.unlisted c)
  | unchanged _ _ _ _ _ _ same =>
    exact absurd hmem (same.marked.unlisted c)
  | added _ e hs ht marked _ =>
    have hc := mem_singleton.mp ((marked c).mp hmem)
    have hadded : Added source.tree target.tree p :=
      added_of_kinds hs ht (by simp)
    cases e with
    | file a =>
      subst hc
      exact ⟨hadded, a, hs⟩
    | dir =>
      subst hc
      exact ⟨hadded, hs⟩
  | updated _ a b hs ht judged marked _ =>
    have hc := mem_singleton.mp ((marked c).mp hmem)
    subst hc
    exact ⟨a, b, hs, ht, judged⟩
  | removed _ e hs ht marked _ =>
    have hc := mem_singleton.mp ((marked c).mp hmem)
    have hdeleted : Deleted source.tree target.tree p :=
      added_of_kinds ht hs (by simp)
    cases e with
    | file b =>
      subst hc
      exact ⟨hdeleted, b, ht⟩
    | dir =>
      subst hc
      exact ⟨hdeleted, ht⟩
  | leftover _ _ _ _ marked _ => exact absurd hmem (marked.unlisted c)
  | fileOverDir _ a hs ht _ marked _ _ _ =>
    have hadded : Added source.tree target.tree p :=
      added_of_kinds hs ht (by simp [isFile])
    have hdeleted : Deleted source.tree target.tree p :=
      added_of_kinds ht hs (by simp [isFile])
    rcases mem_cons.mp ((marked c).mp hmem) with rfl | hc
    · exact ⟨hdeleted, ht⟩
    · cases mem_singleton.mp hc
      exact ⟨hadded, a, hs⟩
  | fileStuck _ _ _ _ stuck _ _ _ => exact absurd (hno.rm _ _) stuck
  | dirOverFile _ b hs ht _ marked _ _ =>
    have hadded : Added source.tree target.tree p :=
      added_of_kinds hs ht (by simp [isFile])
    have hdeleted : Deleted source.tree target.tree p :=
      added_of_kinds ht hs (by simp [isFile])
    rcases mem_cons.mp ((marked c).mp hmem) with rfl | hc
    · exact ⟨hdeleted, b, ht⟩
    · cases mem_singleton.mp hc
      exact ⟨hadded, hs⟩
  | dirStuck _ _ _ _ stuck _ _ => exact absurd (hno.rm _ _) stuck.1

theorem Settled.judged {a b : Bytes} (hv : Visible p)
    (h : Settled call source.tree target.tree p st)
    (hs : source.tree.find p = some (.file a))
    (ht : target.tree.find p = some (.file b)) :
    (judgedChanged call p a b = false ∧
        st.target.find p = some (.file b)) ∨
      (judgedChanged call p a b = true ∧ p ∈ st.diff.updatedFiles) := by
  rcases h.files hv hs ht with ⟨hjudged, hsame⟩ | ⟨hjudged, hmarked⟩
  · exact .inl ⟨hjudged, (hsame p prefix_rfl).2.1.trans ht⟩
  · exact .inr ⟨hjudged, (hmarked .updatedFile).mpr (by simp)⟩

theorem Settled.dir_gone (hno : NoFailures call)
    (h : Settled call source.tree target.tree p st)
    (hs : source.tree.find p ≠ some .dir)
    (ht : target.tree.find p = some .dir) (hbelow : Below p q) :
    st.target.find q = none ∨ ¬ Visible p := by
  cases h with
  | hidden hhidden _ => exact .inr hhidden
  | absent _ ht' _ => rw [ht] at ht'; cases ht'
  | added _ _ _ ht' _ _ => rw [ht] at ht'; cases ht'
  | unchanged _ _ _ _ ht' _ _ => rw [ht] at ht'; cases ht'
  | updated _ _ _ _ ht' _ _ _ => rw [ht] at ht'; cases ht'
  | removed _ _ _ _ _ gone => exact .inl (gone q hbelow.isPrefix)
  | leftover _ _ _ _ _ failed =>
    exact absurd ⟨hno.rm _ _, hno.rm _ _⟩ failed
  | fileOverDir _ _ _ _ _ _ gone _ _ => exact .inl (gone q hbelow)
  | fileStuck _ _ _ _ stuck _ _ _ => exact absurd (hno.rm _ _) stuck
  | dirOverFile _ _ hs' _ _ _ _ _ => exact absurd hs' hs
  | dirStuck _ _ hs' _ _ _ _ => exact absurd hs' hs

namespace Ran

theorem of_mark (h : Ran call source.tree target.tree st)
    (hno : NoFailures call) {c : Change} {q : Path}
    (hmem : q ∈ st.diff.list c) :
    Visible q ∧ MarkMeans call source.tree target.tree q c := by
  rcases h.of_mem hmem with ⟨hq, hc⟩
  exact ⟨h.visible_of_mem hmem, (h.settled hq hc).of_mark hno hmem⟩

private theorem kinds_of_open {q : Path}
    (h : Open source.tree target.tree q) :
    kindAt source.tree q = kindAt target.tree q := by
  have hc := h q prefix_rfl
  rw [kindAt_of_find hc.2.1, kindAt_of_find hc.2.2]

theorem diffExact (h : Ran call source.tree target.tree st)
    (hno : NoFailures call)
    (hjudge : JudgesRight call source.tree target.tree) :
    DiffExact source.tree target.tree st.diff := by
  constructor
  · intro q hmem
    exact h.of_mark (c := .addedFile) hno hmem
  · intro q hmem
    exact h.of_mark (c := .addedDir) hno hmem
  · intro q hv hadded
    rcases open_or_reached common_root q with hopen | ⟨p, hpre, hp, hc⟩
    · exact absurd (kinds_of_open hopen).symm hadded.2
    · exact ⟨p, hpre, (h.settled hp hc).added_listed hno
        (visible_above hpre hv) hpre hadded⟩
  · intro q hmem
    exact h.of_mark (c := .deletedFile) hno hmem
  · intro q hmem
    exact h.of_mark (c := .deletedDir) hno hmem
  · intro q hv hdeleted
    rcases open_or_reached common_root q with hopen | ⟨p, hpre, hp, hc⟩
    · exact absurd (kinds_of_open hopen) hdeleted.2
    · exact ⟨p, hpre, (h.settled hp hc).deleted_listed hno
        (visible_above hpre hv) hpre hdeleted⟩
  · intro q
    constructor
    · intro hmem
      rcases h.of_mark (c := .updatedFile) hno hmem with
        ⟨hv, a, b, hs, ht, hchanged⟩
      exact ⟨hv, a, b, hs, ht, (hjudge q a b hv hs ht).mp hchanged⟩
    intro hq
    rcases hq with ⟨hv, a, b, hs, ht, hne⟩
    have hchanged := (hjudge q a b hv hs ht).mpr hne
    rcases reached_of_files hv hs ht with ⟨hr, hc⟩
    rcases (h.settled hr hc).judged hv hs ht with ⟨hjudged, _⟩ | ⟨_, hmem⟩
    · rw [hchanged] at hjudged
      cases hjudged
    · exact hmem

/-- A run without failures mirrors the source exactly if the judgements are
right and no directory takes something hidden with it. -/
theorem mirrors_iff (h : Ran call source.tree target.tree st)
    (hno : NoFailures call) :
    Mirrors source.tree target.tree st <->
      JudgesRight call source.tree target.tree ∧
        HiddenSpared source.tree target.tree := by
  constructor
  · intro hm
    constructor
    · intro p a b hv hs ht
      rcases reached_of_files hv hs ht with ⟨hr, hc⟩
      rcases (h.settled hr hc).judged hv hs ht with
        ⟨hjudged, hkept⟩ | ⟨hjudged, hmem⟩
      · have hsame := hm.contents p hv
        rw [hkept, hs] at hsame
        cases hsame
        simp [hjudged]
      · rcases (hm.diff.updated p).mp hmem with ⟨_, a', b', hs', ht', hne⟩
        rw [hs] at hs'
        rw [ht] at ht'
        cases hs'
        cases ht'
        simp [hjudged, hne]
    · intro p q hv ht hs hpre hq
      by_contra hhidden
      rcases Option.ne_none_iff_exists'.mp hq with ⟨e, he⟩
      have hkept := hm.hiddenKept q e hhidden he
      rcases open_or_reached common_root p with hopen | ⟨r, hrp, hr, hc⟩
      · exact hs (hopen p prefix_rfl).2.1
      have hvr := visible_above hrp hv
      have htr : target.tree.find r = some .dir := by
        rcases prefix_iff_eq_or_below.mp hrp with rfl | hbelow
        · exact ht
        · exact target.dir_above hbelow ht
      have hsr : source.tree.find r ≠ some .dir := fun hdir =>
        hc ⟨hvr, hdir, htr⟩
      have hbelow : Below r q := by
        refine ⟨hrp.trans hpre, ?_⟩
        intro heq
        exact hhidden (heq ▸ hvr)
      rcases (h.settled hr hc).dir_gone hno hsr htr hbelow with hgone | hv'
      · rw [hgone] at hkept
        cases hkept
      · exact hv' hvr
  · intro hcond
    rcases hcond with ⟨hjudge, hspare⟩
    constructor
    · intro q hv
      rcases open_or_reached common_root q with hopen | ⟨p, hpre, hp, hc⟩
      · rw [(h.of_open hopen).1, (hopen q prefix_rfl).2.1]
      · exact (h.settled hp hc).arrives hno hjudge
          (visible_above hpre hv) q hv hpre
    · intro q e hq ht
      rcases open_or_reached common_root q with hopen | ⟨p, hpre, hp, hc⟩
      · exact absurd (hopen q prefix_rfl).1 hq
      · exact (h.settled hp hc).spares hno hspare hpre hq ht
    · exact h.diffExact hno hjudge

end Ran

end Runs

/-!
# A whole synchronisation
-/

/-- The trees can be looked at: the roots are found and every directory is
listed. -/
structure Answers (call : Call) : Prop where
  statRoot : call.storage.statRoot = true
  statTarget : call.storage.statTarget = true
  ls : forall side p, call.storage.ls side p = true

/-- The target of a synchronisation, which may be missing. -/
def targetTree : Option (FileTree.Rooted Bytes) -> Tree
  | none => ∅
  | some t => t.tree

theorem length_le_depth {t : Tree} {q : Path} {e : Entry Bytes}
    (h : t.find q = some e) : q.length ≤ depth t := by
  have hmem := mem_bindings.mpr h
  unfold depth
  generalize t.bindings = bs at hmem
  induction bs with
  | nil => cases hmem
  | cons b rest ih =>
    rw [map_cons, foldr_cons]
    rcases mem_cons.mp hmem with rfl | hrest
    · exact Nat.le_max_left _ _
    · exact Nat.le_trans (ih hrest) (Nat.le_max_right _ _)

section Whole

variable {call : Call} {source : FileTree.Rooted Bytes}

theorem syncDir_ran (call : Call) (source target : FileTree.Rooted Bytes) :
    let run := syncDir call (depth source.tree + 1) []
      (start source.tree target.tree)
    (forall st, run = .ok st -> Ran call source.tree target.tree st) ∧
      (forall st, run = .error st ->
        KeptUnder call source.tree target.tree [] st ∧ ListingFails call) := by
  have hopen : Open source.tree target.tree [] := by
    intro r hr
    rw [prefix_nil.mp hr]
    exact common_root
  have hspec := syncDir_spec call hopen (depth source.tree + 1)
    (fun q e hq => by
      have hlen := length_le_depth hq
      simp only [length_nil]
      omega)
    (start source.tree target.tree) (SameUnder.refl [] _)
  refine ⟨?_, hspec.2⟩
  intro st hst
  have hroot := syncDir_touches call _ _ _ _ (.inl hst) [] (not_below_self [])
  refine ⟨⟨hroot.2.1.trans target.root, marked_of_sameAt_start hroot⟩, ?_⟩
  intro q hq
  exact hspec.1 st hst q (nil_below_iff.mpr hq.1) hq

/-- The state from which everything is moved into a missing target. -/
private def beforeMove (source : Tree) : State :=
  (start source ∅).record .addedDir []

private theorem syncTree_of_missing :
    syncTree call source.tree ∅ =
      if call.storage.statRoot = true then
        if call.storage.mkdirParent = true then
          match mv call [] (beforeMove source.tree) with
          | (true, st) => .ok st
          | (false, st) => .error st
        else .error (start source.tree ∅)
      else .error (start source.tree ∅) := by
  have hsource : decide (source.tree.find [] ≠ none) = true := by
    simp [source.root]
  have htarget : decide ((∅ : Tree).find [] ≠ none) = false := by
    simp
  unfold syncTree beforeMove start
  dsimp only
  rw [hsource, htarget, Bool.and_true, Bool.and_false]
  exact if_congr Iff.rfl (if_neg Bool.false_ne_true) rfl

variable {st : State}

theorem syncTree_missing (h : syncTree call source.tree ∅ = .ok st) :
    Arrived source.tree [] st ∧
      st.diff = SyncDiff.empty.record .addedDir [] := by
  rw [syncTree_of_missing] at h
  split at h
  · split at h
    · split at h
      next st' heq =>
        cases h
        have hmoved : mv call [] (beforeMove source.tree) = (true, st) := heq
        have hdiff := mv_diff call [] (beforeMove source.tree)
        have harrived := mv_arrived_iff call (beforeMove source.tree)
          (fun q _ => rfl) source.root (fun a ha => by cases ha)
          (fun hne => absurd rfl hne) (fun q _ => rfl)
        have hdelivered : Delivered call source.tree [] :=
          delivered_of_mv (by rw [hmoved])
        rw [hmoved] at hdiff harrived
        exact ⟨harrived.mpr (.inl hdelivered), hdiff⟩
      · cases h
    · cases h
  · cases h

theorem syncTree_missing_ok (source : FileTree.Rooted Bytes)
    (hno : NoFailures call) :
    exists st, syncTree call source.tree ∅ = .ok st := by
  rw [syncTree_of_missing, if_pos hno.statRoot, if_pos hno.mkdirParent]
  have hok : (mv call [] (beforeMove source.tree)).1 = true :=
    mv_succeeds (e := .dir) source.root rfl (hno.mv [])
  generalize mv call [] (beforeMove source.tree) = r at hok
  rcases r with ⟨b, st⟩
  cases hok
  exact ⟨st, rfl⟩

private theorem kindAt_empty (q : Path) : kindAt (∅ : Tree) q = none := by
  rw [kindAt, find_empty]
  rfl

/-- A missing target takes the whole source. -/
theorem keepsPromise_missing :
    KeepsPromise call source.tree ∅ := by
  have hadded : forall q, source.tree.find q ≠ none -> Added source.tree ∅ q := by
    intro q hq
    unfold Added
    rw [kindAt_empty]
    have hkind : kindAt source.tree q ≠ none := by
      intro hnone
      exact hq (by simpa [kindAt] using hnone)
    exact ⟨hkind, fun heq => hkind heq.symm⟩
  constructor
  · intro hno
    rcases syncTree_missing_ok source hno with ⟨st, hst⟩
    rcases syncTree_missing hst with ⟨harrived, hdiff⟩
    refine ⟨st, hst, ?_, ?_, ?_⟩
    · intro q hv
      exact harrived q hv nil_prefix
    · intro q e _ ht
      rw [find_empty] at ht
      cases ht
    · rw [hdiff]
      constructor
      · rintro _ ⟨⟩
      · intro q hq
        rw [mem_singleton.mp hq]
        exact ⟨fun _ hn => (not_mem_nil hn).elim,
          hadded [] (by rw [source.root]; simp), source.root⟩
      · intro q _ _
        exact ⟨[], nil_prefix, .inr (mem_singleton.mpr rfl)⟩
      · rintro _ ⟨⟩
      · rintro _ ⟨⟩
      · intro q _ hdeleted
        exact absurd (kindAt_empty q) hdeleted.1
      · intro q
        constructor
        · rintro ⟨⟩
        · intro hq
          rcases hq.2 with ⟨a, b, _, ht, _⟩
          rw [find_empty] at ht
          cases ht
  · intro st hst p
    rcases syncTree_missing hst with ⟨harrived, hdiff⟩
    constructor
    · intro hmem
      rw [hdiff] at hmem
      rcases hmem with hmem | hmem
      · cases hmem
      · rw [mem_singleton.mp hmem]
        exact ⟨hadded [] (by rw [source.root]; simp), harrived⟩
    · intro hmem
      rw [hdiff] at hmem
      cases hmem
    · intro hmem
      rw [hdiff] at hmem
      cases hmem
    · intro hmem
      rw [hdiff] at hmem
      cases hmem
  · intro q a b _ _ ht
    rw [find_empty] at ht
    cases ht

theorem meets_missing : Meets call source.tree ∅ := by
  constructor
  · intro p _ hp
    have hroot := hp.2 [] (nil_below_iff.mpr hp.1)
    rw [Common, find_empty] at hroot
    cases hroot.2.2
  · intro _ p a b _ _ ht
    rw [find_empty] at ht
    cases ht
  · intro _ p q _ ht
    rw [find_empty] at ht
    cases ht

theorem syncTree_present (call : Call)
    (source target : FileTree.Rooted Bytes) :
    (syncTree call source.tree target.tree =
        syncDir call (depth source.tree + 1) []
          (start source.tree target.tree) ∧
      call.storage.statRoot = true ∧ call.storage.statTarget = true) ∨
    ((exists st, syncTree call source.tree target.tree = .error st ∧
        st.target = target.tree) ∧
      (call.storage.statRoot = false ∨ call.storage.statTarget = false)) := by
  unfold syncTree
  dsimp only
  cases hroot : call.storage.statRoot with
  | false => exact .inr ⟨⟨_, rfl, rfl⟩, .inl rfl⟩
  | true =>
    rw [if_pos (by simp [source.root])]
    cases htarget : call.storage.statTarget with
    | true =>
      rw [if_pos (by simp [target.root])]
      exact .inl ⟨rfl, rfl, rfl⟩
    | false =>
      refine .inr ⟨?_, .inr rfl⟩
      rw [if_neg (by simp)]
      cases call.storage.mkdirParent with
      | false => exact ⟨_, rfl, rfl⟩
      | true =>
        rw [if_pos rfl]
        unfold mv
        rw [record_source, record_target, source.root, target.root]
        exact ⟨_, rfl, rfl⟩

variable {target : FileTree.Rooted Bytes}

theorem replacedKept_of_target (h : st.target = target.tree) :
    ReplacedKept source.tree target.tree st := by
  intro q a b _ _ ht
  rw [h]
  exact .inr ht

theorem Ran.replacedKept (h : Ran call source.tree target.tree st)
    (hmeets : Meets call source.tree target.tree) :
    ReplacedKept source.tree target.tree st := by
  intro q a b hv hs ht
  rcases reached_of_files hv hs ht with ⟨hr, hc⟩
  exact (h.settled hr hc).replacedKept hv (hmeets.lands q hv hr) hs ht

theorem KeptUnder.replacedKept (h : KeptUnder call source.tree target.tree [] st)
    (hmeets : Meets call source.tree target.tree) :
    ReplacedKept source.tree target.tree st := by
  intro q a b hv hs ht
  rcases reached_of_files hv hs ht with ⟨hr, _⟩
  rcases h q nil_prefix hr a b hs ht with hkept | hsettled
  · exact .inr hkept
  · exact hsettled.replacedKept hv (hmeets.lands q hv hr) hs ht

/-- The condition is enough. -/
theorem keepsPromise_of_meets
    (hmeets : Meets call source.tree target.tree) :
    KeepsPromise call source.tree target.tree := by
  rcases syncDir_ran call source target with
    ⟨hran, hbroken⟩
  rcases syncTree_present call source target with
    ⟨heq, _⟩ | ⟨⟨st, heq, htarget⟩, hstat⟩
  · constructor
    · intro hno
      rw [heq]
      cases hrun : syncDir call (depth source.tree + 1) []
          (start source.tree target.tree) with
      | ok st =>
        exact ⟨st, rfl, ((hran st hrun).mirrors_iff hno).mpr
          ⟨hmeets.judges hno, hmeets.spares hno⟩⟩
      | error st =>
        rcases (hbroken st hrun).2 with ⟨side, p, hls⟩
        rw [hno.ls side p] at hls
        cases hls
    · intro st hst
      rw [heq] at hst
      exact (hran st hst).reported_iff.mpr hmeets.lands
    · rw [heq]
      cases hrun : syncDir call (depth source.tree + 1) []
          (start source.tree target.tree) with
      | ok st => exact (hran st hrun).replacedKept hmeets
      | error st => exact (hbroken st hrun).1.replacedKept hmeets
  · constructor
    · intro hno
      rw [hno.statRoot, hno.statTarget] at hstat
      rcases hstat with hstat | hstat <;> cases hstat
    · intro st' hst'
      rw [heq] at hst'
      cases hst'
    · rw [heq]
      exact replacedKept_of_target htarget

/-- The condition is needed, once the trees can be looked at. -/
theorem meets_of_keepsPromise
    (hanswers : Answers call)
    (h : KeepsPromise call source.tree target.tree) :
    Meets call source.tree target.tree := by
  rcases syncDir_ran call source target with
    ⟨hran, hbroken⟩
  rcases syncTree_present call source target with
    ⟨heq, _⟩ | ⟨_, hstat⟩
  · cases hrun : syncDir call (depth source.tree + 1) []
        (start source.tree target.tree) with
    | error st =>
      rcases (hbroken st hrun).2 with ⟨side, p, hls⟩
      rw [hanswers.ls side p] at hls
      cases hls
    | ok st =>
      have hok := heq.trans hrun
      have hmirrors : NoFailures call -> Mirrors source.tree target.tree st := by
        intro hno
        rcases h.mirrors hno with ⟨st', hst', hm⟩
        rw [hok] at hst'
        cases hst'
        exact hm
      constructor
      · exact (hran st hrun).reported_iff.mp (h.reported st hok)
      · intro hno
        exact (((hran st hrun).mirrors_iff hno).mp (hmirrors hno)).1
      · intro hno
        exact (((hran st hrun).mirrors_iff hno).mp (hmirrors hno)).2
  · rw [hanswers.statRoot, hanswers.statTarget] at hstat
    rcases hstat with hstat | hstat <;> cases hstat

end Whole

/-- A synchronisation keeps its promise if everything that it reports as moved
in arrives, if nothing stands in the way of it, and, should no primitive fail,
if files are judged right and no directory that goes holds something hidden.
Where the trees can be looked at, it keeps the promise only then. -/
theorem sync_tree_keeps_promise (call : Call)
    (source : FileTree.Rooted Bytes)
    (target : Option (FileTree.Rooted Bytes)) :
    (Meets call source.tree (targetTree target) ->
        KeepsPromise call source.tree (targetTree target)) ∧
      (Answers call ->
        (KeepsPromise call source.tree (targetTree target) <->
          Meets call source.tree (targetTree target))) := by
  cases target with
  | none =>
    exact ⟨fun _ => keepsPromise_missing,
      fun _ => ⟨fun _ => meets_missing, fun _ => keepsPromise_missing⟩⟩
  | some target =>
    exact ⟨keepsPromise_of_meets,
      fun hanswers => ⟨meets_of_keepsPromise hanswers, keepsPromise_of_meets⟩⟩

/-- Storage that answers, removes, and fails to move anything. -/
def brokenMoves : Call where
  fileChangeStatus := fun _ => none
  isChanged := none
  isTemp := true
  codecs :=
    { utf8 := fun data => some (data.map fun b => Char.ofNat b.toNat)
      gbk := fun _ => none }
  storage :=
    { statRoot := true
      statTarget := true
      mkdirParent := true
      ls := fun _ _ => true
      compare := fun _ => true
      rm := fun _ _ => .done
      mv := fun _ => .failed fun _ => false }

/-- The old file is removed and the diff lists it as updated, but the new one
does not come: the file is lost. -/
theorem replaced_file_lost :
    ¬ KeepsPromise brokenMoves
      (FileTree.Rooted.single (Name.ofString "a.md") [49]).tree
      (FileTree.Rooted.single (Name.ofString "a.md") [50]).tree := by
  intro h
  have hlost : (lastState (syncTree brokenMoves
      (FileTree.Rooted.single (Name.ofString "a.md") [49]).tree
      (FileTree.Rooted.single (Name.ofString "a.md") [50]).tree)).target.find
        [Name.ofString "a.md"] = none := by
    decide +kernel
  have hkept := h.kept [Name.ofString "a.md"] [49] [50] (by decide)
    (by decide) (by decide)
  rw [hlost] at hkept
  rcases hkept with hkept | hkept <;> cases hkept

end TreeSync
end OpenViking
