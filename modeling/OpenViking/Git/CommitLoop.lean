import OpenViking.Git.CommitSpec

/-!
# The candidate loop

The loop stores every candidate file that differs from the previous tree and
removes every candidate that is gone from disk.  A trusted index entry can
pass a directory off as a file: the loop stores it before it visits the files
below it, which replace it.
-/

namespace OpenViking
namespace Git

open Paths WorkTree

/-- The oid that the loop computes for a path on disk, if it gets one. -/
def seenOid (vfs : WorkTree) (index : Option CommitIndex) (p : Path) :
    Option BlobId :=
  match vfs.stat p with
  | .ok info => (candidateOid vfs index p info).toOption
  | .error _ => none

/-- The loop gets past the path: it is gone from disk, or it has an oid. -/
def Readable (vfs : WorkTree) (index : Option CommitIndex) (p : Path) : Prop :=
  vfs.Missing p ∨ exists oid, seenOid vfs index p = some oid

section Seen

variable {vfs : WorkTree} {index : Option CommitIndex} {p : Path} {data : Bytes}

theorem stat_of_not_missing (h : ¬ vfs.Missing p) :
    exists info, vfs.stat p = .ok info := by
  rcases Option.ne_none_iff_exists'.mp h with ⟨node, hnode⟩
  cases node <;> exact ⟨_, by rw [stat, hnode]⟩

theorem stat_of_missing (h : vfs.Missing p) :
    vfs.stat p = .error (.notFound p) := by
  have hnode : vfs.node? p = none := h
  rw [stat, hnode]

theorem read_of_fileAt
    (h : vfs.fileAt p = some data) : vfs.read p = .ok data := by
  rcases fileAt_eq_some_iff.mp h with ⟨modTime, hnode⟩
  rw [WorkTree.read, hnode]

theorem seenOid_eq_some_iff {oid : BlobId} :
    seenOid vfs index p = some oid <->
      exists info, vfs.stat p = .ok info ∧
        candidateOid vfs index p info = .ok oid := by
  unfold seenOid
  cases vfs.stat p with
  | error e => simp
  | ok info =>
    cases h : candidateOid vfs index p info <;> simp [h, Except.toOption]

theorem not_missing_of_seenOid {oid : BlobId}
    (h : seenOid vfs index p = some oid) : ¬ vfs.Missing p := by
  intro hmiss
  rcases seenOid_eq_some_iff.mp h with ⟨info, hstat, _⟩
  rw [stat_of_missing hmiss] at hstat
  cases hstat

/-- The oid of a file is its cached one, or names its bytes. -/
theorem seenOid_of_fileAt (index : Option CommitIndex)
    (h : vfs.fileAt p = some data) :
    exists info, vfs.stat p = .ok info ∧
      seenOid vfs index p = some ((cachedOid index p info).getD ⟨data⟩) := by
  rcases stat_of_not_missing (not_missing_of_fileAt h) with ⟨info, hstat⟩
  refine ⟨info, hstat, seenOid_eq_some_iff.mpr ⟨info, hstat, ?_⟩⟩
  unfold candidateOid
  cases cachedOid index p info with
  | some oid => rfl
  | none =>
    simp only
    rw [read_of_fileAt h]
    rfl

theorem readable_of_not_isDir (index : Option CommitIndex)
    (h : ¬ vfs.IsDir p) : Readable vfs index p := by
  rcases vfs.node?_cases p with ⟨data, hfile⟩ | hdir | hmiss
  · rcases seenOid_of_fileAt index hfile with ⟨info, _, hseen⟩
    exact .inr ⟨_, hseen⟩
  · exact absurd hdir h
  · exact .inl hmiss

end Seen

section Loop

variable (vfs : WorkTree) (index : Option CommitIndex) (prevTree : Tree)

/-- A visited path whose oid differs from that of the previous tree. -/
def Upserted (done : Path -> Prop) (q : Path) : Prop :=
  done q ∧ exists oid, seenOid vfs index q = some oid ∧
    prevTree.get? q ≠ some (.blob oid)

/-- A visited path that is gone from disk but was in the previous tree. -/
def Deleted (done : Path -> Prop) (q : Path) : Prop :=
  done q ∧ vfs.Missing q ∧ (prevTree.get? q).isSome

open Classical in
/-- The file map after visiting the paths of `done`. -/
noncomputable def editedFiles (base : Path -> Option BlobId)
    (done : Path -> Prop) (q : Path) : Option BlobId :=
  if exists u, Upserted vfs index prevTree done u ∧ Below q u then none
  else if Upserted vfs index prevTree done q then seenOid vfs index q
  else if exists u, Upserted vfs index prevTree done u ∧ Below u q then none
  else if exists r, Deleted vfs prevTree done r ∧ r <+: q then none
  else base q

/-- A directory that the classification step or the loop may have loaded. -/
def Opened (done : Path -> Prop) (q : Path) : Prop :=
  q = [] ∨ exists r, (HadFile prevTree r ∨ done r) ∧ Below q r

variable {vfs index prevTree}

variable {base : Path -> Option BlobId}

theorem editedFiles_congr
    {done done' : Path -> Prop}
    (hup : forall q, Upserted vfs index prevTree done q <->
      Upserted vfs index prevTree done' q)
    (hdel : forall q, Deleted vfs prevTree done q <->
      Deleted vfs prevTree done' q) (q : Path) :
    editedFiles vfs index prevTree base done q =
      editedFiles vfs index prevTree base done' q := by
  classical
  unfold editedFiles
  simp only [hup, hdel]

variable {done : Path -> Prop} {p : Path}

theorem Upserted.not_missing {q : Path}
    (h : Upserted vfs index prevTree done q) : ¬ vfs.Missing q := by
  rcases h with ⟨_, oid, hoid, _⟩
  exact not_missing_of_seenOid hoid

theorem not_prefix_of_missing {p q : Path}
    (hp : vfs.Missing p) (hq : ¬ vfs.Missing q) : ¬ p <+: q := by
  intro hpre
  rcases prefix_iff_eq_or_below.mp hpre with rfl | hb
  · exact hq hp
  · exact not_missing_of_isDir (isDir_of_below hq hb) hp

theorem Opened.mono {done' : Path -> Prop} {q : Path}
    (h : Opened prevTree done q) (hdone : forall r, done r -> done' r) :
    Opened prevTree done' q := by
  rcases h with rfl | ⟨r, hr, hb⟩
  · exact .inl rfl
  · exact .inr ⟨r, hr.imp_right (hdone r), hb⟩

/-- Nothing is loaded at or below an old file before it is visited. -/
theorem Opened.not_above {q : Path} (h : Opened prevTree done q)
    (hp : HadFile prevTree p) (hafter : forall u, done u -> ¬ Below p u) :
    ¬ p <+: q := by
  intro hpre
  rcases h with rfl | ⟨r, hr | hr, hb⟩
  · exact hp.ne_nil (List.prefix_nil.mp hpre)
  · exact hp.not_below hr (below_of_isPrefix_of_below hpre hb)
  · exact hafter r hr (below_of_isPrefix_of_below hpre hb)

theorem or_and_iff {a b c : Prop} (h : b -> c) :
    (a ∨ b) ∧ c <-> a ∧ c ∨ b := by
  rw [or_and_right, and_iff_left_of_imp h]

theorem or_and_iff_of_not {a b c : Prop} (h : b -> ¬ c) :
    (a ∨ b) ∧ c <-> a ∧ c := by
  rw [or_and_right]
  exact or_iff_left fun hr => h hr.1 hr.2

/-- Visiting a path that is new or changed, before anything below it. -/
theorem editedFiles_upsert {oid : BlobId}
    (hseen : seenOid vfs index p = some oid)
    (hprev : prevTree.get? p ≠ some (.blob oid))
    (hafter : forall u, done u -> ¬ Below p u) (q : Path) :
    editedFiles vfs index prevTree base (fun r => done r ∨ r = p) q =
      if q = p then some oid
      else if Below p q ∨ Below q p then none
      else editedFiles vfs index prevTree base done q := by
  have hup : forall r, Upserted vfs index prevTree (fun r => done r ∨ r = p) r <->
      Upserted vfs index prevTree done r ∨ r = p :=
    fun _ => or_and_iff fun heq => heq ▸ ⟨oid, hseen, hprev⟩
  have hdel : forall r, Deleted vfs prevTree (fun r => done r ∨ r = p) r <->
      Deleted vfs prevTree done r :=
    fun _ => or_and_iff_of_not fun heq h =>
      not_missing_of_seenOid (heq ▸ hseen) h.1
  classical
  unfold editedFiles
  simp only [hup, hdel]
  by_cases hqp : q = p
  · subst hqp
    rw [if_neg, if_pos (.inr rfl), hseen, if_pos rfl]
    rintro ⟨u, hu | rfl, hb⟩
    · exact hafter u hu.1 hb
    · exact not_below_self _ hb
  by_cases hqb : Below q p
  · rw [if_pos ⟨p, .inr rfl, hqb⟩, if_neg hqp, if_pos (.inr hqb)]
  have hbelow : (exists u, (Upserted vfs index prevTree done u ∨ u = p) ∧
      Below q u) <-> exists u, Upserted vfs index prevTree done u ∧ Below q u :=
    exists_congr fun _ => or_and_iff_of_not fun heq hb => hqb (heq ▸ hb)
  simp only [hbelow, or_iff_left hqp]
  by_cases hpb : Below p q
  · rw [if_neg fun ⟨u, hu, hb⟩ => hafter u hu.1 (hpb.trans hb),
      if_neg fun hu => hafter q hu.1 hpb, if_pos ⟨p, .inr rfl, hpb⟩,
      if_neg hqp, if_pos (.inl hpb)]
  have habove : (exists u, (Upserted vfs index prevTree done u ∨ u = p) ∧
      Below u q) <-> exists u, Upserted vfs index prevTree done u ∧ Below u q :=
    exists_congr fun _ => or_and_iff_of_not fun heq hb => hpb (heq ▸ hb)
  simp only [habove, hqp, hpb, hqb, or_self, if_false]

/-- Visiting a path that is gone from disk. -/
theorem editedFiles_delete (hmiss : vfs.Missing p)
    (hprev : (prevTree.get? p).isSome) (q : Path) :
    editedFiles vfs index prevTree base (fun r => done r ∨ r = p) q =
      if p <+: q then none
      else editedFiles vfs index prevTree base done q := by
  have hup : forall r, Upserted vfs index prevTree (fun r => done r ∨ r = p) r <->
      Upserted vfs index prevTree done r :=
    fun _ => or_and_iff_of_not fun heq ⟨_, hseen, _⟩ =>
      not_missing_of_seenOid hseen (heq ▸ hmiss)
  have hdel : forall r, Deleted vfs prevTree (fun r => done r ∨ r = p) r <->
      Deleted vfs prevTree done r ∨ r = p :=
    fun _ => or_and_iff fun heq => heq ▸ ⟨hmiss, hprev⟩
  classical
  unfold editedFiles
  simp only [hup, hdel]
  by_cases hpre : p <+: q
  · have hq : ¬ Upserted vfs index prevTree done q :=
      fun hq => not_prefix_of_missing hmiss hq.not_missing hpre
    rw [if_neg hq, if_pos hpre]
    iterate 2 rw [ite_eq_left_iff]; intro _
    exact if_pos ⟨p, .inr rfl, hpre⟩
  · have hiff : (exists r, (Deleted vfs prevTree done r ∨ r = p) ∧ r <+: q) <->
        (exists r, Deleted vfs prevTree done r ∧ r <+: q) :=
      exists_congr fun _ => or_and_iff_of_not fun heq hb => hpre (heq ▸ hb)
    simp only [hiff, if_neg hpre]

theorem editedFiles_keep
    (hup : ¬ Upserted vfs index prevTree (fun r => r = p) p)
    (hdel : ¬ Deleted vfs prevTree (fun r => r = p) p) (q : Path) :
    editedFiles vfs index prevTree base (fun r => done r ∨ r = p) q =
      editedFiles vfs index prevTree base done q := by
  apply editedFiles_congr
  · exact fun r => or_and_iff_of_not fun heq h => hup ⟨rfl, heq ▸ h⟩
  · exact fun r => or_and_iff_of_not fun heq h => hdel ⟨rfl, heq ▸ h⟩

/-- The index entry describes the path on disk as the loop saw it. -/
def Describes (vfs : WorkTree) (index : Option CommitIndex) (q : Path)
    (entry : IndexEntry) : Prop :=
  seenOid vfs index q = some entry.oid ∧
    exists info, vfs.stat q = .ok info ∧
      statSignature info = some (entry.size, entry.mtimeNs)

/-- The state of the loop after visiting the paths of `done`. -/
structure LoopInv (vfs : WorkTree) (index : Option CommitIndex) (prevTree : Tree)
    (base : Path -> Option BlobId) (count : Nat)
    (seed : Assoc Path IndexEntry) (done : Path -> Prop) (s : LoopState) :
    Prop where
  valid : s.editor.Valid
  anchored : TreeEditor.Anchored vfs.IsDir s.editor
  opened : forall q, s.editor.Loaded q -> Opened prevTree done q
  files : forall q,
    s.editor.blobAt q = editedFiles vfs index prevTree base done q
  unchanged : s.changed = 0 <-> count = 0 ∧
    forall q, ¬ Upserted vfs index prevTree done q ∧ ¬ Deleted vfs prevTree done q
  entries : forall q entry, s.entries.find q = some entry ->
    (¬ done q ∧ seed.find q = some entry) ∨
    (done q ∧ Describes vfs index q entry)

variable {info : FileInfo} {count : Nat}
  {seed : Assoc Path IndexEntry} {s : LoopState}

/-- The index entry recorded for a visited path. -/
private theorem entries_of_seen {oid : BlobId}
    (h : LoopInv vfs index prevTree base count seed done s)
    (hseen : seenOid vfs index p = some oid) (hstat : vfs.stat p = .ok info) :
    forall q entry,
      (recordEntry s.entries p info oid).find q = some entry ->
      (¬ (done q ∨ q = p) ∧ seed.find q = some entry) ∨
      ((done q ∨ q = p) ∧ Describes vfs index q entry) := by
  intro q entry hfind
  unfold recordEntry at hfind
  by_cases hqp : q = p
  · subst hqp
    cases hsig : statSignature info with
    | none => simp [hsig] at hfind
    | some sig =>
      rcases sig with ⟨size, mtimeNs⟩
      have hentry : (⟨size, mtimeNs, oid⟩ : IndexEntry) = entry := by
        simpa [hsig] using hfind
      subst hentry
      exact .inr ⟨.inr rfl, hseen, info, hstat, hsig⟩
  · have hold : s.entries.find q = some entry := by
      cases hsig : statSignature info with
      | none =>
        rw [hsig] at hfind
        rwa [Assoc.find_del_ne _ hqp] at hfind
      | some sig =>
        rw [hsig] at hfind
        rwa [Assoc.find_put_ne _ _ hqp] at hfind
    rcases h.entries q entry hold with ⟨hnot, hseed⟩ | ⟨hdone, hrest⟩
    · exact .inl ⟨by simp [hnot, hqp], hseed⟩
    · exact .inr ⟨.inl hdone, hrest⟩

/-- A candidate that is as the previous tree has it leaves the tree alone. -/
private theorem LoopInv.keep
    (h : LoopInv vfs index prevTree base count seed done s)
    {entries : Assoc Path IndexEntry}
    (hnoup : ¬ Upserted vfs index prevTree (fun r => r = p) p)
    (hnodel : ¬ Deleted vfs prevTree (fun r => r = p) p)
    (hentries : forall q entry, entries.find q = some entry ->
      (¬ (done q ∨ q = p) ∧ seed.find q = some entry) ∨
      ((done q ∨ q = p) ∧ Describes vfs index q entry)) :
    LoopInv vfs index prevTree base count seed (fun q => done q ∨ q = p)
      { s with entries := entries } := by
  constructor
  · exact h.valid
  · exact h.anchored
  · exact fun q hq => (h.opened q hq).mono fun _ => .inl
  · intro q
    rw [editedFiles_keep hnoup hnodel]
    exact h.files q
  · rw [h.unchanged]
    constructor
    · rintro ⟨hcount, hnone⟩
      refine ⟨hcount, ?_⟩
      intro q
      constructor
      · rintro ⟨hq | rfl, hrest⟩
        · exact (hnone q).1 ⟨hq, hrest⟩
        · exact hnoup ⟨rfl, hrest⟩
      · rintro ⟨hq | rfl, hrest⟩
        · exact (hnone q).2 ⟨hq, hrest⟩
        · exact hnodel ⟨rfl, hrest⟩
    · rintro ⟨hcount, hnone⟩
      refine ⟨hcount, ?_⟩
      intro q
      exact ⟨fun hq => (hnone q).1 ⟨.inl hq.1, hq.2⟩,
        fun hq => (hnone q).2 ⟨.inl hq.1, hq.2⟩⟩
  · exact hentries

theorem processCandidate_ok
    (h : LoopInv vfs index prevTree base count seed done s)
    (hread : Readable vfs index p) (hdir : vfs.IsDir p -> HadFile prevTree p)
    (hafter : forall u, done u -> ¬ Below p u) :
    exists s', processCandidate vfs prevTree index s p = .ok s' ∧
      LoopInv vfs index prevTree base count seed (fun q => done q ∨ q = p) s' := by
  rcases hread with hmiss | ⟨oid, hseen⟩
  · have hp := ne_nil_of_missing hmiss
    have hnoup : ¬ Upserted vfs index prevTree (fun r => r = p) p :=
      fun hup => hup.not_missing hmiss
    have hentries : forall q entry, (s.entries.del p).find q = some entry ->
        (¬ (done q ∨ q = p) ∧ seed.find q = some entry) ∨
        ((done q ∨ q = p) ∧ Describes vfs index q entry) := by
      intro q entry hfind
      by_cases hqp : q = p
      · subst hqp
        simp at hfind
      · rw [Assoc.find_del_ne _ hqp] at hfind
        rcases h.entries q entry hfind with ⟨hnot, hseed⟩ | ⟨hdone, hrest⟩
        · exact .inl ⟨by simp [hnot, hqp], hseed⟩
        · exact .inr ⟨.inl hdone, hrest⟩
    unfold processCandidate
    rw [stat_of_missing hmiss]
    simp only [isNotFound, if_true]
    by_cases hprev : (prevTree.get? p).isSome
    · rcases TreeEditor.remove_anchored h.valid h.anchored hp
        (.inl fun hd => not_missing_of_isDir hd hmiss)
        with ⟨e', hrun, hvalid', hanch', hfiles', hloaded'⟩
      refine ⟨{
        editor := e'
        changed := s.changed + 1
        entries := s.entries.del p }, ?_, ?_⟩
      · simp [hprev, hrun, bind, Except.bind, pure, Except.pure]
      constructor
      · exact hvalid'
      · exact hanch'
      · intro q hq
        rcases hloaded' q hq with hq | hb
        · exact (h.opened q hq).mono fun _ => .inl
        · exact .inr ⟨p, .inr (.inr rfl), hb⟩
      · intro q
        simp only [hfiles', h.files, editedFiles_delete hmiss hprev]
      · constructor
        · intro hzero
          cases hzero
        · rintro ⟨_, hnone⟩
          exact absurd ⟨.inr rfl, hmiss, hprev⟩ (hnone p).2
      · exact hentries
    · have hnodel : ¬ Deleted vfs prevTree (fun r => r = p) p := by
        rintro ⟨_, _, hsome⟩
        exact hprev hsome
      refine ⟨{ s with entries := s.entries.del p }, ?_, ?_⟩
      · simp [hprev, pure, Except.pure]
      exact h.keep hnoup hnodel hentries
  · have hexists := not_missing_of_seenOid hseen
    have hp : p ≠ [] := by
      rintro rfl
      exact (hdir vfs.isDir_nil).ne_nil rfl
    rcases seenOid_eq_some_iff.mp hseen with ⟨info, hstat, hoid⟩
    have hentries := entries_of_seen h hseen hstat
    have hnodel : ¬ Deleted vfs prevTree (fun r => r = p) p :=
      fun hdel => hexists hdel.2.1
    unfold processCandidate
    rw [hstat]
    simp only [hoid, bind, Except.bind]
    by_cases hprev : prevTree.get? p = some (.blob oid)
    · -- The previous tree has this very blob.
      have hnoup : ¬ Upserted vfs index prevTree (fun r => r = p) p := by
        rintro ⟨_, oid', hoid', hne⟩
        rw [hseen] at hoid'
        cases hoid'
        exact hne hprev
      refine ⟨{ s with entries := recordEntry s.entries p info oid }, ?_, ?_⟩
      · simp [hprev, pure, Except.pure]
      exact h.keep hnoup hnodel hentries
    · have hfresh : ¬ vfs.IsDir p ∨ forall q, p <+: q -> ¬ s.editor.Loaded q := by
        by_cases hd : vfs.IsDir p
        · exact .inr fun q hpre hq =>
            (h.opened q hq).not_above (hdir hd) hafter hpre
        · exact .inl hd
      rcases TreeEditor.upsert_anchored h.valid h.anchored hp oid
        (fun d hd => isDir_of_below hexists hd) hfresh with
        ⟨e', hrun, hvalid', hanch', hfiles', hloaded'⟩
      refine ⟨{
        editor := e'
        changed := s.changed + 1
        entries := recordEntry s.entries p info oid }, ?_, ?_⟩
      · simp [hprev, hrun, pure, Except.pure]
      constructor
      · exact hvalid'
      · exact hanch'
      · intro q hq
        rcases hloaded' q hq with hq | hb
        · exact (h.opened q hq).mono fun _ => .inl
        · exact .inr ⟨p, .inr (.inr rfl), hb⟩
      · intro q
        simp only [hfiles', h.files, editedFiles_upsert hseen hprev hafter]
      · constructor
        · intro hzero
          cases hzero
        · rintro ⟨_, hnone⟩
          exact absurd ⟨.inr rfl, oid, hseen, hprev⟩ (hnone p).1
      · exact hentries

theorem processCandidate_error (s : LoopState) (h : ¬ Readable vfs index p) :
    exists e, processCandidate vfs prevTree index s p = .error e := by
  rcases not_or.mp h with ⟨hmiss, hnone⟩
  rcases stat_of_not_missing hmiss with ⟨info, hstat⟩
  unfold processCandidate
  rw [hstat]
  cases hoid : candidateOid vfs index p info with
  | ok oid => exact absurd ⟨oid, seenOid_eq_some_iff.mpr ⟨info, hstat, hoid⟩⟩ hnone
  | error e => exact ⟨e, by simp only [hoid]; rfl⟩

section

variable (cs : List Path)
  (hdirs : forall p, p ∈ cs -> vfs.IsDir p -> HadFile prevTree p)
  (horder : cs.Pairwise fun p q => ¬ Below q p)
  (hafter : forall p, p ∈ cs -> forall u, done u -> ¬ Below p u)

include hdirs horder hafter

theorem loop_ok (hread : forall p, p ∈ cs -> Readable vfs index p)
    (h : LoopInv vfs index prevTree base count seed done s) :
    exists s', cs.foldlM (processCandidate vfs prevTree index) s =
        .ok s' ∧
      LoopInv vfs index prevTree base count seed (fun q => done q ∨ q ∈ cs) s' := by
  induction cs generalizing done s with
  | nil => exact ⟨s, rfl, by simpa using h⟩
  | cons p rest ih =>
    rcases List.pairwise_cons.mp horder with ⟨hfirst, horder⟩
    rw [List.forall_mem_cons] at hdirs hread hafter
    rcases processCandidate_ok h hread.1 hdirs.1 hafter.1 with
      ⟨s₁, hrun₁, hinv₁⟩
    have hafter₁ : forall q, q ∈ rest ->
        forall u, (done u ∨ u = p) -> ¬ Below q u := by
      rintro q hq u (hu | rfl)
      · exact hafter.2 q hq u hu
      · exact hfirst q hq
    rcases ih hdirs.2 horder hafter₁ hread.2 hinv₁ with ⟨s', hrun, hinv⟩
    refine ⟨s', ?_, ?_⟩
    · rw [List.foldlM_cons, hrun₁]
      exact hrun
    · simpa [or_assoc] using hinv

theorem loop_error (hread : exists p, p ∈ cs ∧ ¬ Readable vfs index p)
    (h : LoopInv vfs index prevTree base count seed done s) :
    exists e, cs.foldlM (processCandidate vfs prevTree index) s =
      .error e := by
  induction cs generalizing done s with
  | nil => simp at hread
  | cons p rest ih =>
    rcases List.pairwise_cons.mp horder with ⟨hfirst, horder⟩
    rw [List.forall_mem_cons] at hdirs hafter
    rw [List.foldlM_cons]
    by_cases hp : Readable vfs index p
    · rcases processCandidate_ok h hp hdirs.1 hafter.1 with ⟨s₁, hrun₁, hinv₁⟩
      have hrest : exists q, q ∈ rest ∧ ¬ Readable vfs index q := by
        rcases hread with ⟨q, hq, hnot⟩
        rcases List.mem_cons.mp hq with rfl | hq
        · exact absurd hp hnot
        · exact ⟨q, hq, hnot⟩
      have hafter₁ : forall q, q ∈ rest ->
          forall u, (done u ∨ u = p) -> ¬ Below q u := by
        rintro q hq u (hu | rfl)
        · exact hafter.2 q hq u hu
        · exact hfirst q hq
      rcases ih hdirs.2 horder hafter₁ hrest hinv₁ with ⟨e, hrun⟩
      exact ⟨e, by rw [hrun₁]; exact hrun⟩
    · rcases processCandidate_error s hp with ⟨e, hrun⟩
      exact ⟨e, by rw [hrun]; rfl⟩

end

end Loop

/-!
# The whole call
-/

section Call

variable {parse : IgnoreParser} {matcher : IgnoreMatcher} {vfs : WorkTree}
  {prevHead : Option CommitId} {index : Option CommitIndex}
  {paths : Option (List Path)}

open Classical in
/-- The previous files without those that the classification step drops. -/
noncomputable def keptFiles (matcher : IgnoreMatcher) (vfs : WorkTree)
    (prevTree : Tree) (paths : Option (List Path)) (q : Path) :
    Option BlobId :=
  if Dropped matcher vfs prevTree paths q then none else prevTree.blobAt q

section Edits

variable (matcher : IgnoreMatcher) (vfs : WorkTree) (index : Option CommitIndex)
  (prevTree : Tree) (paths : Option (List Path))

/-- A candidate that the call stores. -/
abbrev Stored : Path -> Prop :=
  Upserted vfs index prevTree (Candidate matcher vfs prevTree paths)

/-- A candidate that the call deletes. -/
abbrev Removed : Path -> Prop :=
  Deleted vfs prevTree (Candidate matcher vfs prevTree paths)

/-- The files of the tree that a successful call makes the branch point to. -/
noncomputable def committedFiles (q : Path) : Option BlobId :=
  editedFiles vfs index prevTree (keptFiles matcher vfs prevTree paths)
    (Candidate matcher vfs prevTree paths) q

/-- The call has nothing to remove, to store or to delete. -/
def NoEdits : Prop :=
  forall q, ¬ Dropped matcher vfs prevTree paths q ∧
    ¬ Stored matcher vfs index prevTree paths q ∧
    ¬ Removed matcher vfs prevTree paths q

/-- No edit of the call touches the path. -/
structure Untouched (q : Path) : Prop where
  kept : ¬ Dropped matcher vfs prevTree paths q
  notStored : ¬ Stored matcher vfs index prevTree paths q
  unrelated : forall u, Stored matcher vfs index prevTree paths u ->
    ¬ (Below u q ∨ Below q u)
  notDeleted : forall r, Removed matcher vfs prevTree paths r -> ¬ r <+: q

end Edits

variable {prevTree : Tree}

theorem Untouched.committedFiles {q : Path}
    (h : Untouched matcher vfs index prevTree paths q) :
    committedFiles matcher vfs index prevTree paths q = prevTree.blobAt q := by
  unfold Git.committedFiles editedFiles
  rw [if_neg fun ⟨u, hu, hb⟩ => h.unrelated u hu (.inr hb), if_neg h.notStored,
    if_neg fun ⟨u, hu, hb⟩ => h.unrelated u hu (.inl hb),
    if_neg fun ⟨r, hr, hpre⟩ => h.notDeleted r hr hpre, keptFiles,
    if_neg h.kept]

theorem committedFiles_of_noEdits
    (h : NoEdits matcher vfs index prevTree paths) (q : Path) :
    committedFiles matcher vfs index prevTree paths q = prevTree.blobAt q :=
  Untouched.committedFiles ⟨(h q).1, (h q).2.1,
    fun u hu _ => (h u).2.1 hu, fun r hr _ => (h r).2.2 hr⟩

/-- An index entry that a partial commit takes over from the old index. -/
def CarriedOver (matcher : IgnoreMatcher) (vfs : WorkTree)
    (paths : Option (List Path)) (index : Option CommitIndex) (q : Path)
    (entry : IndexEntry) : Prop :=
  exists ps idx, paths = some ps ∧ index = some idx ∧
    idx.entries.find q = some entry ∧ Tracked matcher q ∧
    ¬ (q ∈ ps ∧ ¬ vfs.IsDir q) ∧
    forall p, p ∈ ps -> ¬ OnDisk vfs p -> ¬ Below p q

theorem find_seedEntries {scan : Scan} (hclean : CleanedUp vfs paths scan)
    {q : Path} {entry : IndexEntry}
    (h : (seedEntries matcher paths index scan).find q = some entry) :
    CarriedOver matcher vfs paths index q entry := by
  unfold seedEntries at h
  cases paths with
  | none => simp at h
  | some ps =>
    cases index with
    | none => simp at h
    | some idx =>
      simp only [Assoc.find_retain] at h
      rcases Option.filter_eq_some_iff.mp h with ⟨hfind, htest⟩
      rcases hclean ps rfl with ⟨hexact, hprefixes⟩
      simp only [Bool.and_eq_true, Bool.not_eq_true',
        decide_eq_false_iff_not, List.any_eq_false,
        decide_eq_true_eq, hexact, hprefixes] at htest
      refine ⟨ps, idx, rfl, rfl, hfind, htest.2, htest.1.1, ?_⟩
      intro p hp hdisk hbelow
      exact htest.1.2 p ⟨hp, hdisk⟩ hbelow

private theorem loopInv_start {scan : Scan}
    (hinv : ScanInv matcher vfs prevTree scan)
    (hremoved : forall q, q ∈ scan.creditedRemoved <->
      Dropped matcher vfs prevTree paths q)
    (seed : Assoc Path IndexEntry) :
    LoopInv vfs index prevTree (keptFiles matcher vfs prevTree paths)
      scan.changed seed (fun _ => False)
      { editor := scan.editor, changed := scan.changed, entries := seed } :=
  { hinv with
    opened := by
      intro q hq
      rcases hinv.shallow q hq with rfl | ⟨r, hr, hb⟩
      · exact .inl rfl
      · exact .inr ⟨r, .inl hr, hb⟩
    files := by
      intro q
      have hnone : editedFiles vfs index prevTree
          (keptFiles matcher vfs prevTree paths) (fun _ => False) q =
            keptFiles matcher vfs prevTree paths q := by
        simp [editedFiles, Upserted, Deleted]
      rw [hnone, hinv.files, keptFiles]
      by_cases hq : Dropped matcher vfs prevTree paths q
      · rw [if_pos ((hremoved q).mpr hq), if_pos hq]
      · rw [if_neg (fun h => hq ((hremoved q).mp h)), if_neg hq]
    unchanged := by simp [Upserted, Deleted]
    entries := fun q entry hq => .inl ⟨id, hq⟩ }

/-- A directory among the candidates was a file. -/
theorem Candidate.hadFile {p : Path}
    (h : Candidate matcher vfs prevTree paths p) (hdir : vfs.IsDir p) :
    HadFile prevTree p := by
  rcases h.1 with hleaf | ⟨data, hdata⟩ | hhad
  · cases paths with
    | none => exact hleaf.elim
    | some ps => exact absurd hdir hleaf.2
  · exact absurd hdir (not_isDir_of_fileAt hdata)
  · exact hhad

section

variable (hmatcher : loadIgnoreMatcher parse vfs = .ok matcher)
    (hwf : (headTree prevHead).WellFormed)

include hmatcher hwf

theorem planCommit_ok
    (hread : forall p, Candidate matcher vfs (headTree prevHead) paths p ->
      Readable vfs index p) :
    exists plan, planCommit parse vfs prevHead index paths =
        .ok plan ∧
      plan.editor.Valid ∧
      (forall q, plan.editor.blobAt q =
        committedFiles matcher vfs index (headTree prevHead) paths q) ∧
      (plan.changed = 0 <->
        NoEdits matcher vfs index (headTree prevHead) paths) ∧
      (forall q entry, plan.entries.find q = some entry ->
        CarriedOver matcher vfs paths index q entry ∨
        Describes vfs index q entry) := by
  rcases classify_ok matcher vfs hwf paths with
    ⟨scan, hscan, hinv, hremoved, hcand, hclean⟩
  have hmem : forall p, p ∈ orderedSet scan.candidates ->
      Candidate matcher vfs (headTree prevHead) paths p :=
    fun p hp => (hcand p).mp (mem_orderedSet.mp hp)
  rcases loop_ok _ (fun p hp => (hmem p hp).hadFile)
    (pairwise_orderedSet scan.candidates) (fun _ _ _ hu => hu.elim)
    (fun p hp => hread p (hmem p hp)) (loopInv_start hinv hremoved
      (seedEntries matcher paths index scan)) with ⟨loop, hrun, hloop⟩
  have hdone : (fun q => False ∨ q ∈ orderedSet scan.candidates) =
      Candidate matcher vfs (headTree prevHead) paths := by
    funext q
    apply propext
    rw [false_or, mem_orderedSet, hcand]
  rw [hdone] at hloop
  refine ⟨{
    editor := loop.editor
    changed := loop.changed
    ignored := scan.ignored
    entries := loop.entries }, ?_, hloop.valid, hloop.files, ?_, ?_⟩
  · unfold planCommit
    simp only [hmatcher, hscan, hrun, bind, Except.bind, pure, Except.pure]
  · rw [hloop.unchanged, hinv.count, List.length_eq_zero_iff]
    constructor
    · rintro ⟨hnil, hnone⟩ q
      refine ⟨?_, hnone q⟩
      rw [← hremoved, hnil]
      exact List.not_mem_nil
    · intro hnone
      constructor
      · apply List.eq_nil_iff_forall_not_mem.mpr
        intro q hq
        exact (hnone q).1 ((hremoved q).mp hq)
      · exact fun q => (hnone q).2
  · intro q entry hfind
    rcases hloop.entries q entry hfind with ⟨_, hseed⟩ | ⟨_, hrest⟩
    · exact .inl (find_seedEntries hclean hseed)
    · exact .inr hrest

theorem planCommit_error
    (hread : exists p, Candidate matcher vfs (headTree prevHead) paths p ∧
      ¬ Readable vfs index p) :
    exists e, planCommit parse vfs prevHead index paths =
      .error e := by
  rcases classify_ok matcher vfs hwf paths with
    ⟨scan, hscan, hinv, hremoved, hcand, _⟩
  have hsome : exists p, p ∈ orderedSet scan.candidates ∧
      ¬ Readable vfs index p := by
    rcases hread with ⟨p, hp, hnot⟩
    exact ⟨p, mem_orderedSet.mpr ((hcand p).mpr hp), hnot⟩
  rcases loop_error _
    (fun p hp => ((hcand p).mp (mem_orderedSet.mp hp)).hadFile)
    (pairwise_orderedSet scan.candidates) (fun _ _ _ hu => hu.elim) hsome
    (loopInv_start hinv hremoved (seedEntries matcher paths index scan))
    with ⟨e, hrun⟩
  refine ⟨e, ?_⟩
  unfold planCommit
  simp only [hmatcher, hscan, hrun, bind, Except.bind]

end

/-!
# The branch after the call
-/

/-- The index that a commit call loads. -/
def usedIndex (indexStore : Bool) (branch : Branch) : Option CommitIndex :=
  if indexStore then loadIndex branch else none

theorem write_files {plan : CommitPlan} (hvalid : plan.editor.Valid)
    (hfiles : forall q, plan.editor.blobAt q =
      committedFiles matcher vfs index prevTree paths q) :
    plan.editor.write.WellFormed ∧
      forall q, plan.editor.write.blobAt q =
        committedFiles matcher vfs index prevTree paths q := by
  constructor
  · exact TreeEditor.write_wellFormed hvalid
  · intro q
    rw [TreeEditor.blobAt_write hvalid, hfiles]

@[simp] theorem tree_writeCommit (t : Tree) (parent : Option CommitId)
    (info : CommitInfo) : (writeCommit t parent info).tree = t := by
  cases parent <;> rfl

/-- What a successful call does, in terms of its edits. -/
def Performs (matcher : IgnoreMatcher) (vfs : WorkTree)
    (index : Option CommitIndex) (paths : Option (List Path)) (branch : Branch)
    (response : CommitResponse) (branch' : Branch) : Prop :=
  (headTree branch'.head).WellFormed ∧
  (forall q, (headTree branch'.head).blobAt q =
    committedFiles matcher vfs index (headTree branch.head) paths q) ∧
  ((branch'.head = branch.head ∧ exists ignored,
      response = .noop branch.head ignored) <->
    NoEdits matcher vfs index (headTree branch.head) paths)

section

variable {indexStore : Bool} {branch : Branch} (now : Int) (info : CommitInfo)
    (hmatcher : loadIgnoreMatcher parse vfs = .ok matcher)
    (hwf : (headTree branch.head).WellFormed)

include now info hmatcher hwf

/-- A call that can read all its candidates succeeds. -/
theorem commitImpl_ok
    (hread : forall p, Candidate matcher vfs (headTree branch.head) paths p ->
      Readable vfs (usedIndex indexStore branch) p) :
    exists response branch',
      commitImpl parse indexStore now vfs paths info branch =
        .ok (response, branch') ∧
      Performs matcher vfs (usedIndex indexStore branch) paths branch response
        branch' := by
  rcases planCommit_ok hmatcher hwf hread with
    ⟨plan, hrun, hvalid, hfiles, hzero, _⟩
  have hwrite := write_files hvalid hfiles
  unfold commitImpl
  unfold usedIndex at hrun
  simp only [hrun, bind, Except.bind, pure, Except.pure]
  by_cases hnone : plan.changed = 0
  · rw [if_pos hnone]
    have hedits := hzero.mp hnone
    refine ⟨_, _, rfl, hwf, ?_, fun _ => hedits, fun _ => ⟨rfl, _, rfl⟩⟩
    intro q
    exact (committedFiles_of_noEdits hedits q).symm
  · rw [if_neg hnone]
    refine ⟨_, _, rfl, ?_, ?_, ?_, fun h => absurd (hzero.mpr h) hnone⟩
    · simpa [headTree] using hwrite.1
    · intro q
      simpa [headTree] using hwrite.2 q
    · rintro ⟨_, ignored, hnoop⟩
      cases hnoop

/-- A successful call could read all its candidates. -/
theorem commitImpl_ok_inv {response : CommitResponse} {branch' : Branch}
    (hrun : commitImpl parse indexStore now vfs paths info branch =
      .ok (response, branch')) :
    (forall p, Candidate matcher vfs (headTree branch.head) paths p ->
      Readable vfs (usedIndex indexStore branch) p) ∧
    Performs matcher vfs (usedIndex indexStore branch) paths branch response
      branch' := by
  have hread : forall p, Candidate matcher vfs (headTree branch.head) paths p ->
      Readable vfs (usedIndex indexStore branch) p := by
    intro p hp
    by_contra hnot
    rcases planCommit_error hmatcher hwf ⟨p, hp, hnot⟩ with ⟨e, herr⟩
    unfold commitImpl at hrun
    unfold usedIndex at herr
    simp only [herr, bind, Except.bind] at hrun
    cases hrun
  rcases commitImpl_ok now info hmatcher hwf hread with
    ⟨response₁, branch₁, hrun₁, hperforms⟩
  rw [hrun] at hrun₁
  cases hrun₁
  exact ⟨hread, hperforms⟩

end

/-- A call with an unreadable ignore file fails. -/
theorem loadIgnoreMatcher_of_commitImpl {indexStore : Bool} {branch : Branch}
    {now : Int} {info : CommitInfo} {result : CommitResponse × Branch}
    (hrun : commitImpl parse indexStore now vfs paths info branch = .ok result) :
    exists matcher, loadIgnoreMatcher parse vfs = .ok matcher := by
  cases hload : loadIgnoreMatcher parse vfs with
  | ok matcher => exact ⟨matcher, rfl⟩
  | error e =>
    unfold commitImpl planCommit at hrun
    rw [hload] at hrun
    cases hrun

end Call

end Git
end OpenViking
