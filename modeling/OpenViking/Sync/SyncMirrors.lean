import OpenViking.Sync.SyncRun

/-!
# The synchronisation and its diff

What a synchronisation promises, the condition under which it keeps the
promise, and that the condition is the right one.
-/

namespace OpenViking
namespace TreeSync

open Paths List

/-!
# The promise
-/

/-- Whether a file or a directory stands at a path, if anything does. -/
def kindAt (t : Tree) (q : Path) : Option Bool :=
  (t.find q).map isFile

variable (source target : Tree)

/-- The source has an entry that the target has not got. -/
def Added (q : Path) : Prop :=
  kindAt source q ≠ none ∧ kindAt target q ≠ kindAt source q

/-- The target has an entry that the source has not got. -/
def Deleted (q : Path) : Prop :=
  kindAt target q ≠ none ∧ kindAt source q ≠ kindAt target q

/-- Both have a file, with other contents. -/
def Updated (q : Path) : Prop :=
  exists a b, source.find q = some (.file a) ∧
    target.find q = some (.file b) ∧ a ≠ b

/-- The diff lists what was added, updated and deleted, and nothing else.  A
directory that comes or goes is listed for all that is in it. -/
structure DiffExact (source target : Tree) (diff : SyncDiff) : Prop where
  addedFiles : forall q, q ∈ diff.addedFiles -> Visible q ∧
    Added source target q ∧ exists a, source.find q = some (.file a)
  addedDirs : forall q, q ∈ diff.addedDirs -> Visible q ∧
    Added source target q ∧ source.find q = some .dir
  added : forall q, Visible q -> Added source target q ->
    exists p, p <+: q ∧ (p ∈ diff.addedFiles ∨ p ∈ diff.addedDirs)
  deletedFiles : forall q, q ∈ diff.deletedFiles -> Visible q ∧
    Deleted source target q ∧ exists b, target.find q = some (.file b)
  deletedDirs : forall q, q ∈ diff.deletedDirs -> Visible q ∧
    Deleted source target q ∧ target.find q = some .dir
  deleted : forall q, Visible q -> Deleted source target q ->
    exists p, p <+: q ∧ (p ∈ diff.deletedFiles ∨ p ∈ diff.deletedDirs)
  updated : forall q, q ∈ diff.updatedFiles <->
    Visible q ∧ Updated source target q

/-- The target shows the source, what is hidden in it is untouched, and the
diff is exact. -/
structure Mirrors (source target : Tree) (st : State) : Prop where
  contents : forall q, Visible q -> st.target.find q = source.find q
  hiddenKept : forall q e, ¬ Visible q -> target.find q = some e ->
    st.target.find q = some e
  diff : DiffExact source target st.diff

/-- What the diff says of a path is so. -/
structure ReportedAt (source target : Tree) (p : Path) (st : State) :
    Prop where
  added : p ∈ st.diff.addedFiles ∨ p ∈ st.diff.addedDirs ->
    Added source target p ∧ Arrived source p st
  updated : p ∈ st.diff.updatedFiles ->
    (exists a b, source.find p = some (.file a) ∧
      target.find p = some (.file b)) ∧ Arrived source p st
  deletedFile : p ∈ st.diff.deletedFiles ->
    (exists b, target.find p = some (.file b)) ∧
      forall b, st.target.find p ≠ some (.file b)
  deletedDir : p ∈ st.diff.deletedDirs ->
    target.find p = some .dir ∧ st.target.find p ≠ some .dir

/-- A file that was to be replaced has its old or its new content. -/
def ReplacedKept (st : State) : Prop :=
  forall q a b, Visible q -> source.find q = some (.file a) ->
    target.find q = some (.file b) ->
    st.target.find q = some (.file a) ∨ st.target.find q = some (.file b)

def lastState : Except State State -> State
  | .ok st => st
  | .error st => st

/-- No primitive fails. -/
structure NoFailures (call : Call) : Prop where
  statRoot : call.storage.statRoot = true
  statTarget : call.storage.statTarget = true
  mkdirParent : call.storage.mkdirParent = true
  ls : forall side p, call.storage.ls side p = true
  compare : forall p, call.storage.compare p = true
  rm : forall site p, Removes call site p
  mv : forall p, call.storage.mv p = .done

/-- The promise: a mirror and an exact diff if no primitive fails, and a true
diff and no lost file whatever fails. -/
structure KeepsPromise (call : Call) (source target : Tree) : Prop where
  mirrors : NoFailures call -> exists st,
    syncTree call source target = .ok st ∧ Mirrors source target st
  reported : forall st, syncTree call source target = .ok st ->
    forall p, ReportedAt source target p st
  kept : ReplacedKept source target (lastState (syncTree call source target))

/-!
# The condition
-/

/-- Files are taken to have changed exactly if their bytes differ. -/
def JudgesRight (call : Call) (source target : Tree) : Prop :=
  forall p a b, Visible p -> source.find p = some (.file a) ->
    target.find p = some (.file b) ->
    (judgedChanged call p a b = true <-> a ≠ b)

/-- Directories of the target that have to go hold nothing hidden. -/
def HiddenSpared : Prop :=
  forall p q, Visible p -> target.find p = some .dir ->
    source.find p ≠ some .dir -> p <+: q -> target.find q ≠ none -> Visible q

/-- At one path: what stands in the way is removed, and what is moved in
arrives. -/
def LandsAt (call : Call) (source target : Tree) (p : Path) : Prop :=
  match source.find p, target.find p with
  | none, _ => True
  | some _, none => Delivered call source p
  | some (.file a), some (.file b) => judgedChanged call p a b = true ->
      Delivered call source p ∨
        (a = b ∧ ¬ Removes call .oldFile p ∧ (call.storage.mv p).spares = true)
  | some (.file _), some .dir =>
    Removes call .dirForFile p ∧ Delivered call source p
  | some .dir, some (.file _) =>
    (Removes call .fileForDir p ∨ Removes call .fileForDirAgain p) ∧
      Delivered call source p
  | some .dir, some .dir => True

structure Meets (call : Call) (source target : Tree) : Prop where
  lands : forall p, Visible p -> Reached source target p ->
    LandsAt call source target p
  judges : NoFailures call -> JudgesRight call source target
  spares : NoFailures call -> HiddenSpared source target

/-!
# One settled path
-/

section Settled

variable {call : Call} {S T : Tree} {p : Path} {st : State}

theorem NoFailures.delivered (h : NoFailures call) (S : Tree) (p : Path) :
    Delivered call S p := by
  intro q _ _ _ _
  rw [h.mv p]
  rfl

theorem kindAt_of_find {t : Tree} {e : Option (Entry Bytes)}
    (h : t.find p = e) : kindAt t p = e.map isFile := by
  rw [kindAt, h]

theorem added_of_kinds {e : Entry Bytes} {o : Option (Entry Bytes)}
    (hs : S.find p = some e) (ht : T.find p = o)
    (hne : o.map isFile ≠ some (isFile e)) : Added S T p := by
  unfold Added
  rw [kindAt_of_find hs, kindAt_of_find ht]
  exact ⟨by simp, hne⟩

theorem reportedAt_iff {cs : List Change} (h : Marked st p cs) :
    ReportedAt S T p st <->
      (.addedFile ∈ cs ∨ .addedDir ∈ cs ->
        Added S T p ∧ Arrived S p st) ∧
      (.updatedFile ∈ cs ->
        (exists a b, S.find p = some (.file a) ∧ T.find p = some (.file b)) ∧
          Arrived S p st) ∧
      (.deletedFile ∈ cs -> (exists b, T.find p = some (.file b)) ∧
        forall b, st.target.find p ≠ some (.file b)) ∧
      (.deletedDir ∈ cs ->
        T.find p = some .dir ∧ st.target.find p ≠ some .dir) := by
  rw [← h .addedFile, ← h .addedDir, ← h .updatedFile, ← h .deletedFile,
    ← h .deletedDir]
  exact ⟨fun hr => ⟨hr.added, hr.updated, hr.deletedFile, hr.deletedDir⟩,
    fun hr => ⟨hr.1, hr.2.1, hr.2.2.1, hr.2.2.2⟩⟩

theorem reportedAt_unmarked (h : Marked st p []) : ReportedAt S T p st := by
  rw [reportedAt_iff h]
  simp

section

variable (hv : Visible p) (h : Settled call S T p st)

include hv h

theorem Settled.reported_iff : ReportedAt S T p st <-> LandsAt call S T p := by
  cases h with
  | hidden hhidden _ => exact absurd hv hhidden
  | absent hs ht same =>
    unfold LandsAt
    rw [hs]
    exact iff_of_true (reportedAt_unmarked same.marked) trivial
  | added _ e hs ht marked arrived =>
    have hadded : Added S T p := added_of_kinds hs ht (by simp)
    rw [reportedAt_iff marked]
    unfold LandsAt
    rw [hs, ht, ← arrived]
    cases e with
    | file a => simp [addedOf, hadded]
    | dir => simp [addedOf, hadded]
  | unchanged _ a b hs ht judged same =>
    refine iff_of_true (reportedAt_unmarked same.marked) ?_
    unfold LandsAt
    rw [hs, ht]
    intro hchanged
    rw [judged] at hchanged
    cases hchanged
  | updated _ a b hs ht judged marked arrived =>
    rw [reportedAt_iff marked]
    unfold LandsAt
    rw [hs, ht]
    dsimp only
    rw [← arrived]
    simp [judged]
  | removed _ e hs ht marked gone =>
    have hp := gone p prefix_rfl
    rw [reportedAt_iff marked]
    unfold LandsAt
    rw [hs]
    cases e with
    | file b => simp [deletedOf, ht, hp]
    | dir => simp [deletedOf, ht, hp]
  | leftover _ e hs ht marked _ =>
    unfold LandsAt
    rw [hs]
    exact iff_of_true (reportedAt_unmarked marked) trivial
  | fileOverDir _ a hs ht clear marked gone notDir arrived =>
    have hadded : Added S T p := added_of_kinds hs ht (by simp [isFile])
    rw [reportedAt_iff marked]
    unfold LandsAt
    rw [hs, ht, ← arrived]
    simp [hadded, clear, notDir]
  | fileStuck _ a hs ht stuck added marked notFile =>
    refine iff_of_false ?_ ?_
    · intro hr
      have harrived := (hr.added (.inl added)).2 p hv prefix_rfl
      exact notFile a (harrived.trans hs)
    · unfold LandsAt
      rw [hs, ht]
      exact fun hlands => stuck hlands.1
  | dirOverFile _ b hs ht clear marked notFile arrived =>
    have hadded : Added S T p := added_of_kinds hs ht (by simp [isFile])
    rw [reportedAt_iff marked]
    unfold LandsAt
    rw [hs, ht, ← arrived]
    simp [hadded, clear, notFile]
  | dirStuck _ b hs ht stuck marked kept =>
    refine iff_of_false ?_ ?_
    · intro hr
      have harrived := (hr.added (.inr ((marked .addedDir).mpr
        (by simp)))).2 p hv prefix_rfl
      rw [kept, hs] at harrived
      cases harrived
    · unfold LandsAt
      rw [hs, ht]
      intro hlands
      rcases hlands.1 with h | h
      · exact stuck.1 h
      · exact stuck.2 h

/-- Two files are left alone, or the target's is marked as updated. -/
theorem Settled.files {a b : Bytes}
    (hs : S.find p = some (.file a)) (ht : T.find p = some (.file b)) :
    (judgedChanged call p a b = false ∧ SameUnder p (start S T) st) ∨
      (judgedChanged call p a b = true ∧ Marked st p [.updatedFile]) := by
  cases h with
  | unchanged _ a' b' hs' ht' judged same =>
    rw [hs] at hs'
    rw [ht] at ht'
    cases hs'
    cases ht'
    exact .inl ⟨judged, same⟩
  | updated _ a' b' hs' ht' judged marked _ =>
    rw [hs] at hs'
    rw [ht] at ht'
    cases hs'
    cases ht'
    exact .inr ⟨judged, marked⟩
  | hidden hhidden _ => exact absurd hv hhidden
  | absent hs' _ _ => rw [hs] at hs'; cases hs'
  | added _ _ _ ht' _ _ => rw [ht] at ht'; cases ht'
  | removed _ _ hs' _ _ _ => rw [hs] at hs'; cases hs'
  | leftover _ _ hs' _ _ _ => rw [hs] at hs'; cases hs'
  | fileOverDir _ _ _ ht' _ _ _ _ _ => rw [ht] at ht'; cases ht'
  | fileStuck _ _ _ ht' _ _ _ _ => rw [ht] at ht'; cases ht'
  | dirOverFile _ _ hs' _ _ _ _ _ => rw [hs] at hs'; cases hs'
  | dirStuck _ _ hs' _ _ _ _ => rw [hs] at hs'; cases hs'

theorem Settled.replacedKept (hlands : LandsAt call S T p) {a b : Bytes}
    (hs : S.find p = some (.file a)) (ht : T.find p = some (.file b)) :
    st.target.find p = some (.file a) ∨ st.target.find p = some (.file b) := by
  have hreported := (h.reported_iff hv).mpr hlands
  rcases h.files hv hs ht with ⟨_, hsame⟩ | ⟨_, hmarked⟩
  · exact .inr ((hsame p prefix_rfl).2.1.trans ht)
  · have hmem := (hmarked .updatedFile).mpr (by simp)
    exact .inl (((hreported.updated hmem).2 p hv prefix_rfl).trans hs)

end

end Settled

/-!
# A whole run
-/

/-- What is known of a run that went down from the roots. -/
structure Ran (call : Call) (S T : Tree) (st : State) : Prop where
  root : st.target.find [] = some .dir ∧ Marked st [] []
  done : forall q, Reached S T q -> DoneAt call S T q st

theorem open_or_reached {S T : Tree} (hroot : Common S T []) (q : Path) :
    Open S T q ∨
      exists p, p <+: q ∧ Reached S T p ∧ ¬ Common S T p := by
  induction q using reverseRecOn with
  | nil =>
    refine .inl ?_
    intro r hr
    rw [prefix_nil.mp hr]
    exact hroot
  | append_singleton d n ih =>
    rcases ih with hopen | ⟨p, hpre, hp⟩
    · by_cases hc : Common S T (d ++ [n])
      · exact .inl (open_concat hopen hc)
      · exact .inr ⟨d ++ [n], prefix_rfl, reached_concat n hopen, hc⟩
    · exact .inr ⟨p, hpre.trans (prefix_append d [n]), hp⟩

theorem reached_of_open {S T : Tree} {q : Path} (hq : q ≠ [])
    (h : Open S T q) : Reached S T q :=
  ⟨hq, fun r hr => h r hr.isPrefix⟩

section Runs

variable {call : Call} {source target : FileTree.Rooted Bytes} {st : State}

theorem common_root : Common source.tree target.tree [] :=
  ⟨fun _ hn => (not_mem_nil hn).elim, source.root, target.root⟩

namespace Ran

section

variable (h : Ran call source.tree target.tree st)

include h

theorem of_open {q : Path} (hq : Open source.tree target.tree q) :
    st.target.find q = some .dir ∧ Marked st q [] := by
  by_cases hnil : q = []
  · rw [hnil]
    exact h.root
  · exact (h.done q (reached_of_open hnil hq)).2 (hq q prefix_rfl)

theorem settled {p : Path} (hp : Reached source.tree target.tree p)
    (hc : ¬ Common source.tree target.tree p) :
    Settled call source.tree target.tree p st :=
  ((h.done p hp).1 hc).1

theorem of_mem {c : Change} {q : Path} (hmem : q ∈ st.diff.list c) :
    Reached source.tree target.tree q ∧
      ¬ Common source.tree target.tree q := by
  rcases open_or_reached common_root q with hopen | ⟨p, hpre, hp, hc⟩
  · exact absurd (((h.of_open hopen).2 c).mp hmem) (by simp)
  · rcases prefix_iff_eq_or_below.mp hpre with rfl | hbelow
    · exact ⟨hp, hc⟩
    · exact absurd ((((h.done p hp).1 hc).2 q hbelow c).mp hmem) (by simp)

theorem visible_of_mem {c : Change}
    {q : Path} (hmem : q ∈ st.diff.list c) : Visible q := by
  rcases h.of_mem hmem with ⟨hq, hc⟩
  cases h.settled hq hc with
  | hidden _ same =>
    exact absurd hmem (same.marked.unlisted c)
  | absent _ _ same =>
    exact absurd hmem (same.marked.unlisted c)
  | added hv => exact hv
  | unchanged hv => exact hv
  | updated hv => exact hv
  | removed hv => exact hv
  | leftover hv => exact hv
  | fileOverDir hv => exact hv
  | fileStuck hv => exact hv
  | dirOverFile hv => exact hv
  | dirStuck hv => exact hv

theorem reported_iff : (forall p, ReportedAt source.tree target.tree p st) <->
      forall p, Visible p -> Reached source.tree target.tree p ->
        LandsAt call source.tree target.tree p := by
  constructor
  · intro hreported p hv hp
    by_cases hc : Common source.tree target.tree p
    · unfold LandsAt
      rw [hc.2.1, hc.2.2]
      trivial
    · exact ((h.settled hp hc).reported_iff hv).mp (hreported p)
  · intro hlands p
    have hone : forall c, p ∈ st.diff.list c ->
        ReportedAt source.tree target.tree p st := by
      intro c hmem
      rcases h.of_mem hmem with ⟨hp, hc⟩
      have hv := h.visible_of_mem hmem
      exact ((h.settled hp hc).reported_iff hv).mpr (hlands p hv hp)
    constructor
    · intro hmem
      rcases hmem with hmem | hmem
      · exact (hone .addedFile hmem).added (.inl hmem)
      · exact (hone .addedDir hmem).added (.inr hmem)
    · intro hmem
      exact (hone .updatedFile hmem).updated hmem
    · intro hmem
      exact (hone .deletedFile hmem).deletedFile hmem
    · intro hmem
      exact (hone .deletedDir hmem).deletedDir hmem

end

end Ran

theorem reached_of_files {q : Path} {a b : Bytes} (hv : Visible q)
    (hs : source.tree.find q = some (.file a))
    (ht : target.tree.find q = some (.file b)) :
    Reached source.tree target.tree q ∧
      ¬ Common source.tree target.tree q := by
  refine ⟨⟨?_, ?_⟩, ?_⟩
  · intro hnil
    rw [hnil, source.root] at hs
    cases hs
  · intro r hr
    exact ⟨visible_above hr.isPrefix hv, source.dir_above hr hs,
      target.dir_above hr ht⟩
  · intro hc
    rw [hc.2.1] at hs
    cases hs

/-!
# A run without failures
-/

/-- Without failures and with right judgements, what the source shows at a
path arrives. -/
theorem Settled.arrives {p : Path} (hno : NoFailures call)
    (hjudge : JudgesRight call source.tree target.tree) (hv : Visible p)
    (h : Settled call source.tree target.tree p st) :
    Arrived source.tree p st := by
  have hdelivered := hno.delivered source.tree p
  cases h with
  | hidden hhidden _ => exact absurd hv hhidden
  | absent hs ht same =>
    intro q _ hpre
    rw [(same q hpre).2.1]
    show target.tree.find q = _
    rcases prefix_iff_eq_or_below.mp hpre with rfl | hbelow
    · rw [hs, ht]
    · rw [source.none_below (by rw [hs]; simp) hbelow,
        target.none_below (by rw [ht]; simp) hbelow]
  | added _ e hs ht marked arrived => exact arrived.mpr hdelivered
  | unchanged _ a b hs ht judged same =>
    have hab : a = b := by
      by_contra hne
      rw [(hjudge p a b hv hs ht).mpr hne] at judged
      cases judged
    intro q _ hpre
    rw [(same q hpre).2.1]
    show target.tree.find q = _
    rcases prefix_iff_eq_or_below.mp hpre with rfl | hbelow
    · rw [hs, ht, hab]
    · rw [source.none_below (by rw [hs]; simp) hbelow,
        target.none_below (by rw [ht]; simp) hbelow]
  | updated _ a b hs ht judged marked arrived =>
    exact arrived.mpr (.inl hdelivered)
  | removed _ e hs ht marked gone =>
    intro q _ hpre
    rw [gone q hpre]
    rcases prefix_iff_eq_or_below.mp hpre with rfl | hbelow
    · rw [hs]
    · rw [source.none_below (by rw [hs]; simp) hbelow]
  | leftover _ e hs ht marked failed =>
    exact absurd ⟨hno.rm _ _, hno.rm _ _⟩ failed
  | fileOverDir _ a hs ht clear marked gone notDir arrived =>
    exact arrived.mpr hdelivered
  | fileStuck _ a hs ht stuck added marked notFile =>
    exact absurd (hno.rm _ _) stuck
  | dirOverFile _ b hs ht clear marked notFile arrived =>
    exact arrived.mpr hdelivered
  | dirStuck _ b hs ht stuck marked kept =>
    exact absurd (hno.rm _ _) stuck.1

/-- Without failures, what is hidden below a settled path stays unless a
directory goes that holds it. -/
theorem Settled.spares {p q : Path} {e : Entry Bytes} (hno : NoFailures call)
    (hspare : HiddenSpared source.tree target.tree)
    (h : Settled call source.tree target.tree p st)
    (hpre : p <+: q) (hq : ¬ Visible q)
    (ht : target.tree.find q = some e) :
    st.target.find q = some e := by
  have hgoes : Visible p -> source.tree.find p ≠ some .dir ->
      target.tree.find p ≠ some .dir := by
    intro hv hs hdir
    exact hq (hspare p q hv hdir hs hpre (by rw [ht]; simp))
  -- below a file nothing stands, and the file itself is visible
  have hfile : Visible p -> target.tree.find p ≠ some .dir -> False := by
    intro hv hno
    rcases prefix_iff_eq_or_below.mp hpre with rfl | hbelow
    · exact hq hv
    · rw [target.none_below hno hbelow] at ht
      cases ht
  cases h with
  | hidden _ same =>
    rw [(same q hpre).2.1]
    exact ht
  | absent _ _ same =>
    rw [(same q hpre).2.1]
    exact ht
  | added hv _ _ htp _ _ => exact (hfile hv (by rw [htp]; simp)).elim
  | unchanged hv _ _ _ htp _ _ => exact (hfile hv (by rw [htp]; simp)).elim
  | updated hv _ _ _ htp _ _ _ => exact (hfile hv (by rw [htp]; simp)).elim
  | removed hv _ hs _ _ _ =>
    exact (hfile hv (hgoes hv (by rw [hs]; simp))).elim
  | leftover _ _ _ _ _ failed =>
    exact absurd ⟨hno.rm _ _, hno.rm _ _⟩ failed
  | fileOverDir hv _ hs _ _ _ _ _ _ =>
    exact (hfile hv (hgoes hv (by rw [hs]; simp))).elim
  | fileStuck _ _ _ _ stuck _ _ _ => exact absurd (hno.rm _ _) stuck
  | dirOverFile hv _ _ htp _ _ _ _ => exact (hfile hv (by rw [htp]; simp)).elim
  | dirStuck _ _ _ _ stuck _ _ => exact absurd (hno.rm _ _) stuck.1

end Runs

end TreeSync
end OpenViking
