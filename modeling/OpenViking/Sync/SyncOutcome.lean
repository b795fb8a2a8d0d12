import OpenViking.Sync.SyncFrame

/-!
# What becomes of a path

The synchronisation goes down the directories that both trees show.  Where a
path stops being one of them, one of a few things happens to it, according to
what stands there on either side and to how the primitives answer.
-/

namespace OpenViking
namespace TreeSync

open Paths

/-- A directory that both trees show. -/
def Common (source target : Tree) (p : Path) : Prop :=
  Visible p ∧ source.find p = some .dir ∧ target.find p = some .dir

/-- A path that the synchronisation comes to: all directories above it are
common ones. -/
def Reached (source target : Tree) (p : Path) : Prop :=
  p ≠ [] ∧ forall r, Below r p -> Common source target r

/-- A move brings everything visible, even if it raises in the end. -/
def Delivered (call : Call) (source : Tree) (p : Path) : Prop :=
  forall q e, Visible q -> p <+: q -> source.find q = some e ->
    (call.storage.mv p).leaves q = true

/-- A removal succeeds. -/
def Removes (call : Call) (site : RmCall) (p : Path) : Prop :=
  call.storage.rm site p = .done

/-- The target shows what the source showed at and below a path. -/
def Arrived (source : Tree) (p : Path) (st : State) : Prop :=
  forall q, Visible q -> p <+: q -> st.target.find q = source.find q

/-- The lists of the diff that name a path. -/
def Marked (st : State) (p : Path) (cs : List Change) : Prop :=
  forall c, p ∈ st.diff.list c <-> c ∈ cs

def addedOf : Entry Bytes -> Change
  | .file _ => .addedFile
  | .dir => .addedDir

def deletedOf : Entry Bytes -> Change
  | .file _ => .deletedFile
  | .dir => .deletedDir

/-- The state before the synchronisation. -/
def start (source target : Tree) : State :=
  ⟨source, target, SyncDiff.empty⟩

/-- What has become of a path, by what stood there on either side. -/
inductive Settled (call : Call) (source target : Tree) (p : Path)
    (st : State) : Prop
  | hidden (hhidden : ¬ Visible p)
      (same : SameUnder p (start source target) st)
  | absent (hs : source.find p = none) (ht : target.find p = none)
      (same : SameUnder p (start source target) st)
  | added (hv : Visible p) (e : Entry Bytes)
      (hs : source.find p = some e) (ht : target.find p = none) (marked : Marked st p [addedOf e])
      (arrived : Arrived source p st <-> Delivered call source p)
  | unchanged (hv : Visible p) (a b : Bytes)
      (hs : source.find p = some (.file a))
      (ht : target.find p = some (.file b))
      (judged : judgedChanged call p a b = false)
      (same : SameUnder p (start source target) st)
  | updated (hv : Visible p) (a b : Bytes)
      (hs : source.find p = some (.file a))
      (ht : target.find p = some (.file b))
      (judged : judgedChanged call p a b = true)
      (marked : Marked st p [.updatedFile])
      (arrived : Arrived source p st <->
        Delivered call source p ∨
          (a = b ∧ ¬ Removes call .oldFile p ∧
            (call.storage.mv p).spares = true))
  | removed (hv : Visible p) (e : Entry Bytes)
      (hs : source.find p = none) (ht : target.find p = some e) (marked : Marked st p [deletedOf e])
      (gone : forall q, p <+: q -> st.target.find q = none)
  | leftover (hv : Visible p) (e : Entry Bytes)
      (hs : source.find p = none) (ht : target.find p = some e) (marked : Marked st p [])
      (failed : ¬ (Removes call .leftoverFile p ∧ Removes call .leftoverDir p))
  | fileOverDir (hv : Visible p) (a : Bytes)
      (hs : source.find p = some (.file a))
      (ht : target.find p = some .dir) (clear : Removes call .dirForFile p)
      (marked : Marked st p [.deletedDir, .addedFile])
      (gone : forall q, Below p q -> st.target.find q = none)
      (notDir : st.target.find p ≠ some .dir)
      (arrived : Arrived source p st <-> Delivered call source p)
  | fileStuck (hv : Visible p) (a : Bytes)
      (hs : source.find p = some (.file a))
      (ht : target.find p = some .dir) (stuck : ¬ Removes call .dirForFile p)
      (added : p ∈ st.diff.addedFiles)
      (marked : forall c, p ∈ st.diff.list c -> c = .addedFile ∨
        (c = .deletedDir ∧ st.target.find p = none))
      (notFile : forall b, st.target.find p ≠ some (.file b))
  | dirOverFile (hv : Visible p) (b : Bytes)
      (hs : source.find p = some .dir)
      (ht : target.find p = some (.file b))
      (clear : Removes call .fileForDir p ∨ Removes call .fileForDirAgain p)
      (marked : Marked st p [.deletedFile, .addedDir])
      (notFile : forall b, st.target.find p ≠ some (.file b))
      (arrived : Arrived source p st <-> Delivered call source p)
  | dirStuck (hv : Visible p) (b : Bytes)
      (hs : source.find p = some .dir)
      (ht : target.find p = some (.file b))
      (stuck : ¬ Removes call .fileForDir p ∧
        ¬ Removes call .fileForDirAgain p)
      (marked : Marked st p [.addedDir])
      (kept : st.target.find p = some (.file b))

/-- Nothing below a path is named by the diff. -/
def QuietBelow (p : Path) (st : State) : Prop :=
  forall q, Below p q -> Marked st q []

/-!
# Agreeing states
-/

variable {p : Path} {st st' : State} {cs : List Change}

theorem Marked.congr
    (hsame : SameAt p st st') (h : Marked st p cs) : Marked st' p cs :=
  fun c => (hsame.2.2 c).trans (h c)

variable {source : Tree}

theorem Arrived.congr (hsame : SameUnder p st st') (h : Arrived source p st) :
    Arrived source p st' := by
  intro q hq hpre
  rw [(hsame q hpre).2.1]
  exact h q hq hpre

theorem SameUnder.symm (h : SameUnder p st st') :
    SameUnder p st' st :=
  fun q hq => (h q hq).symm

theorem arrived_congr (hsame : SameUnder p st st') :
    Arrived source p st' <-> Arrived source p st :=
  ⟨Arrived.congr hsame.symm, Arrived.congr hsame⟩

theorem QuietBelow.congr
    (hsame : SameUnder p st st') (h : QuietBelow p st) : QuietBelow p st' :=
  fun q hq => (h q hq).congr (hsame q hq.isPrefix)

variable {call : Call}

variable {target : Tree}

theorem Settled.congr (hsame : SameUnder p st st')
    (h : Settled call source target p st) :
    Settled call source target p st' := by
  have hp : SameAt p st st' := hsame p List.prefix_rfl
  cases h with
  | hidden hhidden same => exact .hidden hhidden (same.trans hsame)
  | absent hs ht same => exact .absent hs ht (same.trans hsame)
  | added hv e hs ht marked arrived =>
    exact .added hv e hs ht (marked.congr hp)
      ((arrived_congr hsame).trans arrived)
  | unchanged hv a b hs ht judged same =>
    exact .unchanged hv a b hs ht judged (same.trans hsame)
  | updated hv a b hs ht judged marked arrived =>
    exact .updated hv a b hs ht judged (marked.congr hp)
      ((arrived_congr hsame).trans arrived)
  | removed hv e hs ht marked gone =>
    exact .removed hv e hs ht (marked.congr hp)
      (fun q hq => (hsame q hq).2.1.trans (gone q hq))
  | leftover hv e hs ht marked failed =>
    exact .leftover hv e hs ht (marked.congr hp) failed
  | fileOverDir hv a hs ht clear marked gone notDir arrived =>
    exact .fileOverDir hv a hs ht clear (marked.congr hp)
      (fun q hq => (hsame q hq.isPrefix).2.1.trans (gone q hq))
      (by rw [hp.2.1]; exact notDir)
      ((arrived_congr hsame).trans arrived)
  | fileStuck hv a hs ht stuck added marked notFile =>
    refine .fileStuck hv a hs ht stuck ((hp.2.2 .addedFile).mpr added) ?_ ?_
    · intro c hc
      rw [hp.2.1]
      exact marked c ((hp.2.2 c).mp hc)
    · rw [hp.2.1]
      exact notFile
  | dirOverFile hv b hs ht clear marked notFile arrived =>
    exact .dirOverFile hv b hs ht clear (marked.congr hp)
      (by rw [hp.2.1]; exact notFile)
      ((arrived_congr hsame).trans arrived)
  | dirStuck hv b hs ht stuck marked kept =>
    exact .dirStuck hv b hs ht stuck (marked.congr hp) (hp.2.1.trans kept)

/-!
# Marks
-/

theorem marked_start (source target : Tree) (p : Path) :
    Marked (start source target) p [] := by
  intro c
  show p ∈ SyncDiff.empty.list c <-> _
  simp

theorem marked_of_sameAt_start {st : State}
    (h : SameAt p (start source target) st) : Marked st p [] :=
  (marked_start source target p).congr h

theorem SameUnder.marked {st : State}
    (h : SameUnder p (start source target) st) : Marked st p [] :=
  marked_of_sameAt_start (h p List.prefix_rfl)

theorem Marked.unlisted {st : State} (h : Marked st p []) (c : Change) :
    p ∉ st.diff.list c :=
  fun hmem => List.not_mem_nil ((h c).mp hmem)

theorem Marked.record {st : State}
    (h : Marked st p cs) (c : Change) : Marked (st.record c p) p (c :: cs) := by
  intro c'
  rw [mem_record, h c', List.mem_cons]
  constructor
  · intro hor
    rcases hor with hmem | ⟨heq, _⟩
    · exact .inr hmem
    · exact .inl heq
  · intro hor
    rcases hor with heq | hmem
    · exact .inr ⟨heq, rfl⟩
    · exact .inl hmem

variable {q : Path}

theorem Marked.record_other {st : State} {p : Path}
    (h : Marked st q cs) (c : Change) (hne : q ≠ p) :
    Marked (st.record c p) q cs := by
  intro c'
  rw [mem_record]
  constructor
  · intro hor
    rcases hor with hmem | ⟨_, heq⟩
    · exact (h c').mp hmem
    · exact absurd heq hne
  · intro hmem
    exact .inl ((h c').mpr hmem)

theorem Marked.of_diff_eq
    (h : Marked st p cs) (hdiff : st'.diff = st.diff) : Marked st' p cs := by
  intro c
  rw [hdiff]
  exact h c

theorem QuietBelow.record {st : State} (h : QuietBelow p st)
    (c : Change) : QuietBelow p (st.record c p) :=
  fun q hq => (h q hq).record_other c hq.ne.symm

theorem QuietBelow.of_diff_eq
    (h : QuietBelow p st) (hdiff : st'.diff = st.diff) : QuietBelow p st' :=
  fun q hq => (h q hq).of_diff_eq hdiff

theorem quietBelow_of_same {st : State}
    (h : SameUnder p (start source target) st) : QuietBelow p st :=
  fun q hq => marked_of_sameAt_start (h q hq.isPrefix)

/-!
# What a move brings
-/

theorem visible_above {p : Path} (h : p <+: q) (hq : Visible q) : Visible p :=
  fun n hn => hq n (h.subset hn)

theorem carried_of_visible {p : Path} (hq : Visible q) :
    carried call p q = true := by
  rw [carried, List.all_eq_true]
  intro n hn
  have hvisible := hq n (List.drop_subset p.length q hn)
  unfold hidden at hvisible
  rw [Bool.or_eq_false_iff] at hvisible
  rw [hvisible.2]
  simp

private theorem copy_visible {t : Tree} {p : Path}
    (hq : Visible q) (hpre : p <+: q) :
    (t.copyBelow source p (carried call p)).find q =
      (source.find q).or (t.find q) := by
  rw [FileTree.find_copyBelow, if_pos ⟨hpre, carried_of_visible hq⟩]

private theorem copy_part {t : Tree} {p : Path}
    {part : Path -> Bool} (hq : Visible q) (hpre : p <+: q) :
    (t.copyBelow source p fun r => carried call p r && part r).find q =
      if part q = true then (source.find q).or (t.find q)
      else t.find q := by
  rw [FileTree.find_copyBelow, carried_of_visible hq]
  by_cases hpart : part q = true
  · rw [if_pos ⟨hpre, by simp [hpart]⟩, if_pos hpart]
  · rw [if_neg (by simp [hpart]), if_neg hpart]

variable {e : Entry Bytes}

/-- What a move leaves at the place, when that is free or has a file where a
file is to come. -/
theorem mv_find (call : Call) (st : State)
    (hsource : forall q, p <+: q -> st.source.find q = source.find q)
    (hs : source.find p = some e)
    (hfile : st.target.find p ≠ none -> exists a b,
      e = .file a ∧ st.target.find p = some (.file b))
    (hbelow : forall q, Below p q -> st.target.find q = none)
    {q : Path} (hq : Visible q) (hpre : p <+: q) :
    (mv call p st).2.target.find q =
      if (call.storage.mv p).leaves q = true then source.find q
      else if (call.storage.mv p).spares = true then st.target.find q
      else none := by
  -- what stands at the place does not show through a copy
  have hcover : (source.find q).or (st.target.find q) = source.find q := by
    cases hqe : source.find q with
    | some e' => rfl
    | none =>
      have hne : p ≠ q := by
        intro heq
        rw [← heq, hs] at hqe
        cases hqe
      rw [hbelow q ⟨hpre, hne⟩]
      rfl
  have hcopy : (st.target.copyBelow st.source p (carried call p)).find q =
      source.find q := by
    rw [copy_visible hq hpre, hsource q hpre, hcover]
  have hsp := (hsource p List.prefix_rfl).trans hs
  have hmv : (mv call p st).2 =
      MoveOutcome.casesOn (motive := fun _ => State) (call.storage.mv p)
        { st with
          target := st.target.copyBelow st.source p (carried call p)
          source := st.source.removeBelow p (fun _ => false) }
        (fun part => { st with
          target := st.target.copyBelow st.source p
            (fun q => carried call p q && part q) })
        (fun left => { st with
          target := (st.target.copyBelow st.source p
            (carried call p)).removeBelow p left })
        (fun left => { st with
          target := st.target.copyBelow st.source p (carried call p)
          source := st.source.removeBelow p left }) := by
    unfold mv
    rw [hsp]
    cases htp : st.target.find p with
    | none => cases e <;> cases call.storage.mv p <;> rfl
    | some e' =>
      rcases hfile (by rw [htp]; exact fun h => by cases h) with
        ⟨a, b, rfl, hb⟩
      rw [htp] at hb
      cases hb
      cases call.storage.mv p <;> rfl
  rw [hmv]
  cases call.storage.mv p with
  | done => exact hcopy
  | unremoved left => exact hcopy
  | failed part =>
    show (st.target.copyBelow st.source p _).find q = _
    rw [copy_part hq hpre, hsource q hpre, hcover]
    rfl
  | cleaned left =>
    show ((st.target.copyBelow st.source p _).removeBelow p left).find q = _
    rw [FileTree.find_removeBelow, hcopy]
    cases hleft : left q <;> simp [MoveOutcome.leaves, MoveOutcome.spares, hleft, hpre]

/-- A move to such a place brings what the source shows exactly if it delivers,
unless the same entry was there already and is spared. -/
theorem mv_arrived_iff (call : Call) (st : State)
    (hsource : forall q, p <+: q -> st.source.find q = source.find q)
    (hs : source.find p = some e)
    (hleaf : forall a, e = .file a -> forall q, Below p q ->
      source.find q = none)
    (hfile : st.target.find p ≠ none -> exists a b,
      e = .file a ∧ st.target.find p = some (.file b))
    (hbelow : forall q, Below p q -> st.target.find q = none) :
    Arrived source p (mv call p st).2 <->
      Delivered call source p ∨
        (st.target.find p = some e ∧ (call.storage.mv p).spares = true) := by
  have hfind := fun {q} => mv_find (q := q) call st hsource hs hfile hbelow
  constructor
  · intro harrived
    by_cases hdelivered : Delivered call source p
    · exact .inl hdelivered
    unfold Delivered at hdelivered
    push Not at hdelivered
    rcases hdelivered with ⟨q, e', hq, hpre, hqe, hleaves⟩
    have harr := harrived q hq hpre
    rw [hfind hq hpre, if_neg hleaves, hqe] at harr
    by_cases hspares : (call.storage.mv p).spares = true
    · rw [if_pos hspares] at harr
      rcases prefix_iff_eq_or_below.mp hpre with rfl | hbel
      · rw [hs] at hqe
        cases hqe
        exact .inr ⟨harr, hspares⟩
      · rw [hbelow q hbel] at harr
        cases harr
    · rw [if_neg hspares] at harr
      cases harr
  · intro hor q hq hpre
    rw [hfind hq hpre]
    by_cases hleaves : (call.storage.mv p).leaves q = true
    · rw [if_pos hleaves]
    rw [if_neg hleaves]
    rcases hor with hall | ⟨hsame, hspares⟩
    · cases hqe : source.find q with
      | some e' => exact absurd (hall q e' hq hpre hqe) hleaves
      | none =>
        have hbel : Below p q := by
          refine ⟨hpre, ?_⟩
          intro heq
          rw [← heq, hs] at hqe
          cases hqe
        rw [hbelow q hbel, ite_self]
    · rw [if_pos hspares]
      rcases prefix_iff_eq_or_below.mp hpre with rfl | hbel
      · exact hsame.trans hs.symm
      · rcases hfile (by rw [hsame]; exact fun h => by cases h) with
          ⟨a, b, ha, _⟩
        rw [hbelow q hbel, hleaf a ha q hbel]

theorem delivered_of_mv {S : Tree} {st : State}
    (h : (mv call p st).1 = true) : Delivered call S p := by
  unfold mv at h
  split at h
  · cases h
  · cases h
  · cases h
  · intro q _ _ _ _
    cases hout : call.storage.mv p with
    | done => rfl
    | _ =>
      rw [hout] at h
      cases h

theorem mv_succeeds {st : State}
    (hs : st.source.find p = some e) (ht : st.target.find p = none)
    (hdone : call.storage.mv p = .done) : (mv call p st).1 = true := by
  unfold mv
  rw [hs, ht, hdone]
  cases e <;> rfl

end TreeSync
end OpenViking
