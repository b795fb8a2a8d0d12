import OpenViking.Git.EditorView

/-!
# Editing steps as map updates

Each editor operation is described by what it does to `get?`, to the set of
directories and to the set of loaded directories.
-/

namespace OpenViking
namespace Git

open Paths Assoc List Option

namespace TreeEditor

/--
The loaded directories are closed under parents, and every subtree id held in
memory names a well-formed tree.
-/
structure Valid (e : TreeEditor) : Prop where
  closed : forall {p q : Path}, e.Loaded q -> Below p q -> e.Loaded p
  wellFormed : forall {dir : Path} {entries : TreeEntries} {name : Name}
    {t : Tree}, e.entriesAt dir = some entries ->
    entries.find name = some (.tree (some t)) -> t.WellFormed

theorem loaded_nil (e : TreeEditor) : e.Loaded [] := by
  simp [Loaded, entriesAt]

theorem isDir_nil (e : TreeEditor) : e.IsDir [] := .inl rfl

variable {p : Path}

theorem not_loaded_iff (e : TreeEditor) (hp : p ≠ []) :
    (e.subtrees.find p).isSome = false <-> ¬ e.Loaded p := by
  rw [find_subtrees_eq_entriesAt e hp, Loaded]
  simp

theorem fromTree_valid {t : Tree} (h : t.WellFormed) : (fromTree t).Valid where
  closed := by
    intro p q hq hbelow
    have hqnil : q = [] := by
      by_contra hne
      simp [Loaded, entriesAt, fromTree, hne] at hq
    subst hqnil
    exact absurd (prefix_nil.mp hbelow.isPrefix) hbelow.ne
  wellFormed := by
    intro dir entries name sub hentries hfind
    by_cases hdir : dir = []
    · subst hdir
      have heq : t.loadTreeEntries = entries := by
        simpa [entriesAt, fromTree] using hentries
      subst heq
      exact Tree.wellFormed_of_find h hfind
    · simp [entriesAt, fromTree, hdir] at hentries

theorem fromTree_loaded {t : Tree} (h : (fromTree t).Loaded p) : p = [] := by
  by_contra hne
  simp [Loaded, entriesAt, fromTree, hne] at h

theorem empty_eq_fromTree : empty = fromTree .nil := rfl

/-- Where nothing is loaded, a path reads as in the stored tree. -/
theorem getFrom_loadTreeEntries {subtrees : Path -> Option TreeEntries}
    {pre : Path} (h : forall d, d ≠ [] -> subtrees (pre ++ d) = none)
    (t : Tree) (p : Path) :
    getFrom subtrees pre t.loadTreeEntries p = t.get? p := by
  induction p generalizing t pre with
  | nil => simp
  | cons name rest ih =>
    by_cases hrest : rest = []
    · subst hrest
      rw [getFrom_singleton, Tree.get?_singleton]
    rw [getFrom_cons _ _ _ _ hrest, Tree.get?_cons _ _ hrest]
    cases hfind : t.loadTreeEntries.find name with
    | none => rfl
    | some entry =>
      cases entry with
      | blob oid => rfl
      | tree oid =>
        have hchild : childEntries subtrees (pre ++ [name]) oid =
            (oid.getD .nil).loadTreeEntries := by
          simp [childEntries, h [name] (by simp)]
        have hbelow : forall d, d ≠ [] ->
            subtrees (pre ++ [name] ++ d) = none := by
          intro d _
          simpa using h (name :: d) (by simp)
        simp only [hchild, ih hbelow]
        cases oid with
        | none =>
          cases rest with
          | nil => exact absurd rfl hrest
          | cons m r => rfl
        | some sub => rfl

@[simp] theorem get?_fromTree (t : Tree) (p : Path) :
    (fromTree t).get? p = t.get? p :=
  getFrom_loadTreeEntries (by simp [fromTree]) t p

@[simp] theorem blobAt_fromTree (t : Tree) (p : Path) :
    (fromTree t).blobAt p = t.blobAt p := by
  unfold blobAt Tree.blobAt
  rw [get?_fromTree]

variable {e : TreeEditor} {entries : TreeEntries}

theorem Valid.setEntriesAt (h : e.Valid) {dir : Path}
    (hparents : forall p, Below p dir -> e.Loaded p)
    (hwf : forall {name : Name} {t : Tree},
      entries.find name = some (.tree (some t)) -> t.WellFormed) :
    (e.setEntriesAt dir entries).Valid where
  closed := by
    intro p q hq hbelow
    rw [loaded_setEntriesAt] at hq ⊢
    rcases hq with rfl | hq
    · exact .inr (hparents p hbelow)
    · exact .inr (h.closed hq hbelow)
  wellFormed := by
    intro d es name t hes hfind
    rw [entriesAt_setEntriesAt] at hes
    by_cases hd : d = dir
    · rw [if_pos hd] at hes
      cases hes
      exact hwf hfind
    · rw [if_neg hd] at hes
      exact h.wellFormed hes hfind

variable {name : Name}

theorem Valid.setEntriesAt_put (h : e.Valid) {dir : Path} {entry : Entry}
    (hentries : e.entriesAt dir = some entries)
    (hwf : forall t, entry = .tree (some t) -> t.WellFormed) :
    (e.setEntriesAt dir (entries.put name entry)).Valid := by
  apply h.setEntriesAt
  · intro p hp
    exact h.closed (by simp [Loaded, hentries]) hp
  · intro name' t hfind
    rw [find_put] at hfind
    by_cases hname : name' = name
    · rw [if_pos hname] at hfind
      exact hwf t (by simpa using hfind)
    · rw [if_neg hname] at hfind
      exact h.wellFormed hentries hfind

theorem isDir_congr {e' : TreeEditor} (h : forall p, e'.get? p = e.get? p)
    (p : Path) : e'.IsDir p <-> e.IsDir p := by
  unfold IsDir
  rw [h]

variable {done : Path}

theorem parents_loaded (hvalid : e.Valid) (hload : e.Loaded done) (p : Path)
    (hp : Below p (done ++ [name])) : e.Loaded p := by
  rcases prefix_iff_eq_or_below.mp (below_append_singleton_iff.mp hp) with
    rfl | hp
  · exact hload
  · exact hvalid.closed hload hp

variable {d : Path}

theorem not_isDir_of_prefix (h : ¬ e.IsDir d) (hpre : d <+: p) : ¬ e.IsDir p := by
  intro hp
  rcases prefix_iff_eq_or_below.mp hpre with rfl | hbelow
  · exact h hp
  · exact h (hp.of_below hbelow)

/-!
# Loading one level
-/

variable {parent : TreeEntries}

private theorem get?_child (name : Name) (hdir : e.IsDir done)
    (hparent : e.entriesAt done = some parent) :
    e.get? (done ++ [name]) = parent.find name := by
  rw [get?_append_of_isDir hdir, if_neg (by simp), getFrom_singleton,
    dirEntries_of_entriesAt hdir hparent]

private theorem load_child (hvalid : e.Valid) {oid : Option Tree}
    (hparent : e.entriesAt done = some parent)
    (hfind : parent.find name = some (.tree oid))
    (hnew : ¬ e.Loaded (done ++ [name])) :
    (e.setEntriesAt (done ++ [name])
        (oid.getD .nil).loadTreeEntries).Valid ∧
      forall p, (e.setEntriesAt (done ++ [name])
        (oid.getD .nil).loadTreeEntries).get? p = e.get? p := by
  have hload : e.Loaded done := by simp [Loaded, hparent]
  constructor
  · apply hvalid.setEntriesAt (parents_loaded hvalid hload)
    · intro name' t' hfind'
      cases oid with
      | none => cases hfind'
      | some t =>
        exact Tree.wellFormed_of_find (hvalid.wellFormed hparent hfind) hfind'
  · intro p
    by_cases hdir : e.IsDir done
    · have hget : e.get? (done ++ [name]) = some (.tree oid) := by
        rw [get?_child _ hdir hparent, hfind]
      have hentries : e.dirEntries (done ++ [name]) =
          (oid.getD .nil).loadTreeEntries := by
        have hnone : e.subtrees.find (done ++ [name]) = none := by
          simpa using (not_loaded_iff e (by simp)).mpr hnew
        simp [dirEntries, hget, childEntries, hnone]
      rw [← hentries]
      exact get?_setEntriesAt_dirEntries (.inr ⟨oid, hget⟩) p
    · apply get?_setEntriesAt_of_not_isDir
      intro hchild
      exact hdir (hchild.of_below (below_append_singleton done name))

private theorem get?_setEntriesAt_child (hdir : e.IsDir done) (entries : TreeEntries) :
    (e.setEntriesAt done entries).get? (done ++ [name]) =
      entries.find name := by
  rw [get?_setEntriesAt_append hdir _ (by simp), getFrom_singleton]

private theorem get?_setEntriesAt_of_agree (hdir : e.IsDir done)
    (hparent : e.entriesAt done = some parent)
    (hagree : forall m, m ≠ name -> entries.find m = parent.find m)
    (hp : ¬ (done ++ [name]) <+: p) :
    (e.setEntriesAt done entries).get? p = e.get? p := by
  by_cases hbelow : Below done p
  · rcases below_iff_exists.mp hbelow with ⟨q, hq, rfl⟩
    rw [get?_setEntriesAt_append hdir _ hq, get?_append_of_isDir hdir,
      if_neg hq, dirEntries_of_entriesAt hdir hparent]
    cases q with
    | nil => exact absurd rfl hq
    | cons m rest =>
      have hname : m ≠ name := by
        intro heq
        subst heq
        exact hp ⟨rest, by simp⟩
      rw [getFrom, getFrom, hagree m hname]
  · exact get?_setEntriesAt_of_not_below e _ hbelow

private theorem get?_create_child (hdir : e.IsDir done)
    (hparent : e.entriesAt done = some parent)
    (hfind : forall oid, parent.find name ≠ some (.tree oid))
    (hnew : ¬ e.Loaded (done ++ [name])) :
    forall p,
      ((e.setEntriesAt done (parent.put name (.tree none))).setEntriesAt
          (done ++ [name]) ∅).get? p =
        if p = done ++ [name] then some (.tree none) else e.get? p := by
  have hself : (e.setEntriesAt done
      (parent.put name (.tree none))).get? (done ++ [name]) =
        some (.tree none) := by
    rw [get?_setEntriesAt_child hdir, find_put_self]
  have hnewDir : (e.setEntriesAt done
      (parent.put name (.tree none))).IsDir (done ++ [name]) :=
    .inr ⟨none, hself⟩
  have hentries : (e.setEntriesAt done
      (parent.put name (.tree none))).dirEntries (done ++ [name]) = ∅ := by
    have hnone : (e.setEntriesAt done
        (parent.put name (.tree none))).subtrees.find
          (done ++ [name]) = none := by
      rw [find_subtrees_eq_entriesAt _ (by simp), entriesAt_setEntriesAt,
        if_neg (by simp)]
      simpa [Loaded] using hnew
    simp only [dirEntries, hself, childEntries, hnone]
    simp
    rfl
  intro p
  rw [← hentries, get?_setEntriesAt_dirEntries hnewDir]
  by_cases hp : p = done ++ [name]
  · rw [if_pos hp, hp, hself]
  rw [if_neg hp]
  by_cases hbelow : Below (done ++ [name]) p
  · have hold : ¬ e.IsDir (done ++ [name]) := by
      intro hchild
      rcases hchild with hnil | ⟨oid, hget⟩
      · simp at hnil
      · rw [get?_child _ hdir hparent] at hget
        exact hfind oid hget
    rcases below_iff_exists.mp hbelow with ⟨q, hq, rfl⟩
    rw [get?_append_of_isDir hnewDir, if_neg hq, hentries, getFrom_empty,
      get?_eq_none_of_below hold hbelow]
  · apply get?_setEntriesAt_of_agree hdir hparent
    · intro m hm
      exact find_put_ne _ _ hm
    · intro hpre
      rcases prefix_iff_eq_or_below.mp hpre with heq | hb
      · exact hp heq.symm
      · exact hbelow hb

/-!
# Loading a directory path
-/

variable {create : Bool} {rest : Path}

private theorem ensurePathLoaded_loaded (h : e.Loaded (done ++ [name])) :
    e.ensurePathLoaded create done (name :: rest) =
      e.ensurePathLoaded create (done ++ [name]) rest := by
  rw [ensurePathLoaded]
  simp only [find_subtrees_eq_entriesAt e (p := done ++ [name]) (by simp)]
  exact if_pos h

private theorem ensurePathLoaded_load
    {oid : Option Tree} (h : ¬ e.Loaded (done ++ [name]))
    (hparent : e.entriesAt done = some parent)
    (hfind : parent.find name = some (.tree oid)) :
    e.ensurePathLoaded create done (name :: rest) =
      (e.setEntriesAt (done ++ [name])
        (oid.getD .nil).loadTreeEntries).ensurePathLoaded create
          (done ++ [name]) rest := by
  unfold Loaded at h
  rw [ensurePathLoaded]
  simp only [find_subtrees_eq_entriesAt e (p := done ++ [name]) (by simp)]
  rw [if_neg h, hparent]
  simp only [hfind]
  cases oid <;> rfl

private theorem ensurePathLoaded_missing (h : ¬ e.Loaded (done ++ [name]))
    (hparent : e.entriesAt done = some parent)
    (hfind : forall oid, parent.find name ≠ some (.tree oid)) :
    e.ensurePathLoaded create done (name :: rest) =
      if create then
        ((e.setEntriesAt done
            (parent.put name (.tree none))).setEntriesAt
          (done ++ [name]) ∅).ensurePathLoaded create (done ++ [name]) rest
      else
        .ok (e, false) := by
  unfold Loaded at h
  rw [ensurePathLoaded]
  simp only [find_subtrees_eq_entriesAt e (p := done ++ [name]) (by simp)]
  rw [if_neg h, hparent]
  cases hentry : parent.find name with
  | none => simp only [hentry]
  | some entry =>
    cases entry with
    | blob oid => simp only [hentry]
    | tree oid => exact absurd hentry (hfind oid)

/-- A level that is not held yet is loaded, or created where a directory has no
entry for it. -/
private theorem ensurePathLoaded_step (hvalid : e.Valid) (rest : Path)
    (hload : e.Loaded done)
    (hchild : ¬ e.Loaded (done ++ [name])) :
    exists e₁ : TreeEditor, e.ensurePathLoaded true done (name :: rest) =
        e₁.ensurePathLoaded true (done ++ [name]) rest ∧ e₁.Valid ∧
      (forall p, e₁.Loaded p <-> p = done ++ [name] ∨ e.Loaded p) ∧
      (e.IsDir done -> e₁.IsDir (done ++ [name]) ∧
        forall p, p ≠ done ++ [name] ∨ e.IsDir p -> e₁.get? p = e.get? p) ∧
      (¬ e.IsDir done -> forall p, e₁.get? p = e.get? p) := by
  rcases isSome_iff_exists.mp hload with ⟨parent, hparent⟩
  by_cases htree : exists oid, parent.find name = some (.tree oid)
  · rcases htree with ⟨oid, hfind⟩
    have hstep := load_child hvalid hparent hfind hchild
    refine ⟨_, ensurePathLoaded_load hchild hparent hfind, hstep.1,
      fun p => loaded_setEntriesAt _ _ p _, ?_, fun _ => hstep.2⟩
    intro hdir
    refine ⟨(isDir_congr hstep.2 _).mpr (.inr ⟨oid, ?_⟩), fun p _ => hstep.2 p⟩
    rw [get?_child name hdir hparent, hfind]
  · have hfind : forall oid, parent.find name ≠ some (.tree oid) :=
      fun oid h => htree ⟨oid, h⟩
    have hput : (e.setEntriesAt done (parent.put name (.tree none))).Valid :=
      hvalid.setEntriesAt_put hparent (by intro t h; cases h)
    refine ⟨_, by rw [ensurePathLoaded_missing hchild hparent hfind, if_pos rfl],
      ?_, ?_, ?_, ?_⟩
    · apply hput.setEntriesAt (parents_loaded hput
        ((loaded_setEntriesAt _ _ _ _).mpr (.inl rfl)))
      intro name' t h
      cases h
    · intro p
      rw [loaded_setEntriesAt, loaded_setEntriesAt]
      constructor
      · rintro (hp | rfl | hp)
        · exact .inl hp
        · exact .inr hload
        · exact .inr hp
      · rintro (hp | hp)
        · exact .inl hp
        · exact .inr (.inr hp)
    · intro hdir
      have hget := get?_create_child hdir hparent hfind hchild
      refine ⟨.inr ⟨none, by rw [hget, if_pos rfl]⟩, ?_⟩
      intro p hp
      rw [hget, if_neg]
      rintro rfl
      rcases hp with hp | hnil | ⟨oid, hoid⟩
      · exact hp rfl
      · simp at hnil
      · rw [get?_child _ hdir hparent] at hoid
        exact hfind oid hoid
    · intro hdir p
      have hgetPut := get?_setEntriesAt_of_not_isDir hdir
        (parent.put name (.tree none))
      rw [get?_setEntriesAt_of_not_isDir _ _ p, hgetPut]
      rw [isDir_congr hgetPut]
      exact not_isDir_of_prefix hdir (prefix_append _ _)

/-- What `ensurePathLoaded` does when it may create directories. -/
theorem ensurePathLoaded_create (hvalid : e.Valid) (dirs : Path)
    (hload : e.Loaded done) (hdir : e.IsDir done)
    (hconn : forall d, Below done d -> d <+: done ++ dirs -> e.Loaded d ->
      e.IsDir d) :
    exists e', e.ensurePathLoaded true done dirs = .ok (e', true) ∧
      e'.Valid ∧
      (forall p, e'.Loaded p <-> e.Loaded p ∨ p <+: done ++ dirs) ∧
      (forall p, p <+: done ++ dirs -> e'.IsDir p) ∧
      (forall p, ¬ p <+: done ++ dirs ∨ e.IsDir p ->
        e'.get? p = e.get? p) := by
  induction dirs generalizing e done with
  | nil =>
    refine ⟨e, by rw [ensurePathLoaded], hvalid, ?_, ?_, fun _ _ => rfl⟩
    · intro p
      rw [append_nil]
      constructor
      · exact .inl
      · intro hp
        rcases hp with hp | hp
        · exact hp
        · rcases prefix_iff_eq_or_below.mp hp with rfl | hp
          · exact hload
          · exact hvalid.closed hload hp
    · intro p hp
      rw [append_nil] at hp
      rcases prefix_iff_eq_or_below.mp hp with rfl | hp
      · exact hdir
      · exact hdir.of_below hp
  | cons name rest ih =>
    have happ : done ++ name :: rest = (done ++ [name]) ++ rest := by simp
    rw [happ] at hconn ⊢
    have hchildPre : done ++ [name] <+: done ++ [name] ++ rest :=
      prefix_append _ _
    by_cases hchild : e.Loaded (done ++ [name])
    · rw [ensurePathLoaded_loaded hchild]
      apply ih hvalid hchild
      · exact hconn _ (below_append_singleton done name) hchildPre hchild
      · intro d hd
        exact hconn d ((below_append_singleton done name).trans hd)
    · rcases ensurePathLoaded_step hvalid rest hload hchild with
        ⟨e₁, hstep, hvalid₁, hloaded₁, hdirs₁, _⟩
      rcases hdirs₁ hdir with ⟨hchildDir, hget₁⟩
      have hrec := ih hvalid₁ ((hloaded₁ _).mpr (.inl rfl)) hchildDir (by
        intro d hd _ hdl
        rcases (hloaded₁ d).mp hdl with rfl | hdl
        · exact absurd hd (not_below_self _)
        · exact absurd (hvalid.closed hdl hd) hchild)
      rcases hrec with ⟨e', hrun, hvalid', hloaded', hdirs', hget'⟩
      refine ⟨e', by rw [hstep, hrun], hvalid', ?_, hdirs', ?_⟩
      · intro p
        rw [hloaded', hloaded₁]
        constructor
        · rintro ((rfl | hp) | hp)
          · exact .inr hchildPre
          · exact .inl hp
          · exact .inr hp
        · rintro (hp | hp)
          · exact .inl (.inr hp)
          · exact .inr hp
      · intro p hp
        have hold : e₁.get? p = e.get? p := by
          apply hget₁
          rcases hp with hp | hp
          · exact .inl fun heq => hp (heq ▸ hchildPre)
          · exact .inr hp
        have hkept : e.IsDir p -> e₁.IsDir p := by
          unfold IsDir
          rw [hold]
          exact id
        rw [hget' p (hp.imp_right hkept), hold]

/-- What `ensurePathLoaded` does when it may not create directories. -/
theorem ensurePathLoaded_existing (hvalid : e.Valid) (dirs : Path)
    (hload : e.Loaded done) :
    exists e' present,
      e.ensurePathLoaded false done dirs = .ok (e', present) ∧
      e'.Valid ∧
      (forall p, e'.get? p = e.get? p) ∧
      (present = true -> e'.Loaded (done ++ dirs)) ∧
      (present = false -> ¬ e.IsDir (done ++ dirs)) ∧
      (forall p, e'.Loaded p -> e.Loaded p ∨
        (p <+: done ++ dirs ∧
          (e.IsDir p ∨ exists d, Below d p ∧ e.Loaded d ∧ ¬ e.IsDir d))) := by
  induction dirs generalizing e done with
  | nil =>
    refine ⟨e, true, by rw [ensurePathLoaded], hvalid, fun _ => rfl, ?_,
      ?_, fun _ hp => .inl hp⟩
    · intro _
      rw [append_nil]
      exact hload
    · nofun
  | cons name rest ih =>
    have happ : done ++ name :: rest = (done ++ [name]) ++ rest := by simp
    rw [happ]
    have hchildPre : done ++ [name] <+: done ++ [name] ++ rest :=
      prefix_append _ _
    by_cases hchild : e.Loaded (done ++ [name])
    · rw [ensurePathLoaded_loaded hchild]
      exact ih hvalid hchild
    rcases isSome_iff_exists.mp hload with ⟨parent, hparent⟩
    by_cases htree : exists oid, parent.find name = some (.tree oid)
    · rcases htree with ⟨oid, hfind⟩
      have hstep := load_child hvalid hparent hfind hchild
      have hsame := isDir_congr hstep.2
      have hchildDir : e.IsDir (done ++ [name]) ∨ ¬ e.IsDir done := by
        by_cases hdir : e.IsDir done
        · exact .inl (.inr ⟨oid, by
            rw [get?_child _ hdir hparent, hfind]⟩)
        · exact .inr hdir
      rcases ih hstep.1 ((loaded_setEntriesAt e _ _ _).mpr (.inl rfl))
        with ⟨e', present, hrun, hvalid', hget', htrue, hfalse, hloaded'⟩
      refine ⟨e', present, ?_, hvalid', ?_, htrue, ?_, ?_⟩
      · rw [ensurePathLoaded_load hchild hparent hfind]
        exact hrun
      · intro p
        rw [hget', hstep.2]
      · intro hpresent
        rw [← hsame]
        exact hfalse hpresent
      · intro p hp
        rcases hloaded' p hp with hp | ⟨hpre, hp⟩
        · rcases (loaded_setEntriesAt e _ _ _).mp hp with rfl | hp
          · refine .inr ⟨hchildPre, ?_⟩
            rcases hchildDir with hdir | hdir
            · exact .inl hdir
            · exact .inr ⟨done, below_append_singleton done name, hload, hdir⟩
          · exact .inl hp
        · refine .inr ⟨hpre, ?_⟩
          rcases hp with hp | ⟨d, hd, hdl, hdd⟩
          · exact .inl ((hsame p).mp hp)
          rw [hsame] at hdd
          rcases (loaded_setEntriesAt e _ _ _).mp hdl with rfl | hdl
          · rcases hchildDir with hdir | hdir
            · exact absurd hdir hdd
            · exact .inr ⟨done,
                (below_append_singleton done name).trans hd, hload,
                hdir⟩
          · exact .inr ⟨d, hd, hdl, hdd⟩
    · have hfind : forall oid, parent.find name ≠ some (.tree oid) := by
        intro oid heq
        exact htree ⟨oid, heq⟩
      refine ⟨e, false, ?_, hvalid, fun _ => rfl, ?_, ?_, fun _ hp => .inl hp⟩
      · rw [ensurePathLoaded_missing hchild hparent hfind]
        rfl
      · nofun
      · intro _ hdir
        have hchildDir : e.IsDir (done ++ [name]) := by
          rcases prefix_iff_eq_or_below.mp hchildPre with heq | hb
          · rw [heq]
            exact hdir
          · exact hdir.of_below hb
        have hdone : e.IsDir done :=
          hchildDir.of_below (below_append_singleton done name)
        rcases hchildDir with hnil | ⟨oid, hget⟩
        · simp at hnil
        · rw [get?_child _ hdone hparent] at hget
          exact hfind oid hget

@[simp] theorem splitLast_append_singleton (dirs : Path) (name : Name) :
    splitLast (dirs ++ [name]) = .ok (dirs, name) := by
  simp [splitLast]

/-!
# Removing a path
-/

theorem remove_ok (hvalid : e.Valid) (hp : p ≠ []) :
    exists e', e.remove p = .ok e' ∧ e'.Valid ∧
      (forall q, e'.get? q = if p <+: q then none else e.get? q) ∧
      (forall q, e'.Loaded q -> e.Loaded q ∨
        (Below q p ∧
          (e.IsDir q ∨ exists d, Below d q ∧ e.Loaded d ∧ ¬ e.IsDir d))) := by
  rcases eq_nil_or_concat' p with rfl | ⟨dirs, name, rfl⟩
  · exact absurd rfl hp
  rcases ensurePathLoaded_existing hvalid dirs (loaded_nil e) with
    ⟨e₁, present, hrun, hvalid₁, hget₁, htrue, hfalse, hloaded₁⟩
  have hisDir₁ := isDir_congr hget₁
  have hloaded : forall q, e₁.Loaded q -> e.Loaded q ∨
      (Below q (dirs ++ [name]) ∧
        (e.IsDir q ∨ exists d, Below d q ∧ e.Loaded d ∧ ¬ e.IsDir d)) := by
    intro q hq
    rcases hloaded₁ q hq with hq | ⟨hpre, hq⟩
    · exact .inl hq
    · exact .inr ⟨below_append_singleton_iff.mpr hpre, hq⟩
  -- A directory without an entry for `name` has nothing at or below the path.
  have hgone : forall (e' : TreeEditor) (q : Path),
      e'.get? (dirs ++ [name]) = none -> (dirs ++ [name]) <+: q ->
        e'.get? q = none := by
    intro e' q hnone hpre
    rcases prefix_iff_eq_or_below.mp hpre with rfl | hb
    · exact hnone
    · apply get?_eq_none_of_below _ hb
      rintro (hnil | ⟨oid, hget⟩)
      · simp at hnil
      · rw [hnone] at hget
        cases hget
  by_cases hload : present = true
  · have hdirsLoaded : e₁.Loaded dirs := by
      simpa using htrue hload
    rcases isSome_iff_exists.mp hdirsLoaded with ⟨entries, hentries⟩
    refine ⟨e₁.setEntriesAt dirs (entries.del name), ?_, ?_, ?_, ?_⟩
    · unfold remove
      rw [splitLast_append_singleton]
      by_cases hdirs : dirs = []
      · subst hdirs
        have he : e = e₁ := by
          rw [ensurePathLoaded] at hrun
          cases hrun
          rfl
        subst he
        have hroot : e.root = entries := by
          simpa [entriesAt] using hentries
        simp [bind, Except.bind, pure, Except.pure, hroot]
      · have hfind : e₁.subtrees.find dirs = some entries := by
          rw [find_subtrees_eq_entriesAt e₁ hdirs, hentries]
        simp [bind, Except.bind, pure, Except.pure, hdirs, hrun, hload, hfind]
    · apply hvalid₁.setEntriesAt
      · intro d hd
        exact hvalid₁.closed hdirsLoaded hd
      · intro name' t hfind
        rw [find_del] at hfind
        by_cases hname : name' = name
        · simp [hname] at hfind
        · rw [if_neg hname] at hfind
          exact hvalid₁.wellFormed hentries hfind
    · intro q
      by_cases hdir : e₁.IsDir dirs
      · by_cases hpre : (dirs ++ [name]) <+: q
        · rw [if_pos hpre]
          apply hgone _ q _ hpre
          rw [get?_setEntriesAt_child hdir, find_del_self]
        · rw [if_neg hpre, get?_setEntriesAt_of_agree hdir hentries _ hpre, hget₁]
          intro m hm
          exact find_del_ne _ hm
      · rw [get?_setEntriesAt_of_not_isDir hdir, hget₁]
        by_cases hpre : (dirs ++ [name]) <+: q
        · rw [if_pos hpre]
          apply get?_eq_none_of_below (p := dirs)
          · rwa [← hisDir₁]
          · exact (below_append_singleton dirs name).trans_isPrefix hpre
        · rw [if_neg hpre]
    · intro q hq
      rw [loaded_setEntriesAt] at hq
      rcases hq with rfl | hq
      · exact hloaded q hdirsLoaded
      · exact hloaded q hq
  · have hpresent : present = false := by simpa using hload
    have hdir : ¬ e.IsDir dirs := by
      simpa using hfalse hpresent
    refine ⟨e₁, ?_, hvalid₁, ?_, hloaded⟩
    · unfold remove
      rw [splitLast_append_singleton]
      have hdirs : dirs ≠ [] := by
        rintro rfl
        exact hdir (isDir_nil e)
      simp [bind, Except.bind, pure, Except.pure, hdirs, hrun, hpresent]
    · intro q
      rw [hget₁]
      by_cases hpre : (dirs ++ [name]) <+: q
      · rw [if_pos hpre]
        exact get?_eq_none_of_below hdir
          ((below_append_singleton dirs name).trans_isPrefix hpre)
      · rw [if_neg hpre]

/-!
# Inserting below a path
-/

variable {dirs : Path}

/--
Setting the entry at a path whose loaded parents are all directories.  The
parents are created where they are missing.
-/
private theorem put_ok (hvalid : e.Valid) (name : Name) (entry : Entry)
    (hwf : forall t, entry = .tree (some t) -> t.WellFormed)
    (hconn : forall d, Below d (dirs ++ [name]) -> e.Loaded d ->
      e.IsDir d) :
    exists e₁ entries,
      e.ensurePathLoaded true [] dirs = .ok (e₁, true) ∧
      e₁.entriesAt dirs = some entries ∧
      (e₁.setEntriesAt dirs (entries.put name entry)).Valid ∧
      (e₁.setEntriesAt dirs (entries.put name entry)).get?
        (dirs ++ [name]) = some entry ∧
      (forall q, Below q (dirs ++ [name]) ->
        (e₁.setEntriesAt dirs (entries.put name entry)).IsDir q) ∧
      (forall q, ¬ (dirs ++ [name]) <+: q ->
        (¬ Below q (dirs ++ [name]) ∨ e.IsDir q) ->
        (e₁.setEntriesAt dirs (entries.put name entry)).get? q =
          e.get? q) ∧
      (forall q, (e₁.setEntriesAt dirs (entries.put name entry)).Loaded q <->
        e.Loaded q ∨ Below q (dirs ++ [name])) := by
  rcases ensurePathLoaded_create hvalid dirs (loaded_nil e) (isDir_nil e) (by
      intro d _ hd hload
      exact hconn d (below_append_singleton_iff.mpr (by simpa using hd))
        hload) with ⟨e₁, hrun, hvalid₁, hloaded₁, hdirs₁, hget₁⟩
  simp only [nil_append] at hloaded₁ hdirs₁ hget₁
  have hload : e₁.Loaded dirs := (hloaded₁ dirs).mpr (.inr prefix_rfl)
  have hdir : e₁.IsDir dirs := hdirs₁ dirs prefix_rfl
  rcases isSome_iff_exists.mp hload with ⟨entries, hentries⟩
  refine ⟨e₁, entries, hrun, hentries, ?_, ?_, ?_, ?_, ?_⟩
  · exact hvalid₁.setEntriesAt_put hentries hwf
  · rw [get?_setEntriesAt_child hdir, find_put_self]
  · intro q hq
    rw [below_append_singleton_iff] at hq
    have hnot : ¬ Below dirs q := by
      intro hb
      have := hb.length_lt
      have := hq.length_le
      omega
    rw [isDir_setEntriesAt_of_not_below e₁ _ hnot]
    exact hdirs₁ q hq
  · intro q hq hor
    rw [get?_setEntriesAt_of_agree hdir hentries _ hq]
    · apply hget₁
      rwa [below_append_singleton_iff] at hor
    · intro m hm
      exact find_put_ne _ _ hm
  · intro q
    rw [loaded_setEntriesAt, hloaded₁, below_append_singleton_iff]
    constructor
    · rintro (rfl | hq | hq)
      · exact .inr prefix_rfl
      · exact .inl hq
      · exact .inr hq
    · rintro (hq | hq)
      · exact .inr (.inl hq)
      · exact .inr (.inr hq)

private theorem upsert_of_loaded {e₁ : TreeEditor} (name : Name) (oid : BlobId)
    (hrun : e.ensurePathLoaded true [] dirs = .ok (e₁, true))
    (hentries : e₁.entriesAt dirs = some entries) :
    e.upsert (dirs ++ [name]) oid =
      .ok (e₁.setEntriesAt dirs (entries.put name (.blob oid))) := by
  unfold upsert
  rw [splitLast_append_singleton]
  by_cases hnil : dirs = []
  · subst hnil
    have he : e = e₁ := by
      rw [ensurePathLoaded] at hrun
      cases hrun
      rfl
    subst he
    have hroot : e.root = entries := by
      simpa [entriesAt] using hentries
    simp [bind, Except.bind, pure, Except.pure, hroot]
  · have hfind : e₁.subtrees.find dirs = some entries := by
      rw [find_subtrees_eq_entriesAt e₁ hnil, hentries]
    simp [bind, Except.bind, pure, Except.pure, hnil, hrun, hfind]

theorem upsert_ok (hvalid : e.Valid) (hp : p ≠ []) (oid : BlobId)
    (hconn : forall d, Below d p -> e.Loaded d -> e.IsDir d) :
    exists e', e.upsert p oid = .ok e' ∧ e'.Valid ∧
      e'.get? p = some (.blob oid) ∧
      (forall q, Below q p -> e'.IsDir q) ∧
      (forall q, Below p q -> e'.get? q = none) ∧
      (forall q, ¬ p <+: q -> (¬ Below q p ∨ e.IsDir q) ->
        e'.get? q = e.get? q) ∧
      (forall q, e'.Loaded q <-> e.Loaded q ∨ Below q p) := by
  rcases eq_nil_or_concat' p with rfl | ⟨dirs, name, rfl⟩
  · exact absurd rfl hp
  rcases put_ok hvalid name (.blob oid) (by intro t h; cases h) hconn with
    ⟨e₁, entries, hrun, hentries, hvalid', hself, hdirs, hother, hloaded⟩
  refine ⟨_, upsert_of_loaded name oid hrun hentries, hvalid', hself, hdirs, ?_,
    hother, hloaded⟩
  intro q hq
  apply get?_eq_none_of_below _ hq
  rintro (hnil | ⟨oid', hget⟩)
  · simp at hnil
  · rw [hself] at hget
    cases hget

/-!
# Splicing a subtree
-/

/-- Forgetting the loaded directories at and below a path. -/
private def forget (e : TreeEditor) (p : Path) : TreeEditor :=
  { e with subtrees := e.subtrees.retain fun k _ => !decide (p <+: k) }

private theorem find_forget (e : TreeEditor) (p d : Path) :
    (e.forget p).subtrees.find d =
      if p <+: d then none else e.subtrees.find d := by
  unfold forget
  rw [find_retain]
  by_cases hpre : p <+: d
  · simp [hpre]
  · cases e.subtrees.find d <;> simp [hpre]

private theorem loaded_forget (hp : p ≠ [])
    (q : Path) : (e.forget p).Loaded q <-> e.Loaded q ∧ ¬ p <+: q := by
  unfold Loaded entriesAt
  by_cases hq : q = []
  · subst hq
    simp [hp]
  · rw [if_neg hq, if_neg hq, find_forget]
    by_cases hpre : p <+: q
    · simp [hpre]
    · simp [hpre]

private theorem get?_forget (e : TreeEditor) {q : Path}
    (h : ¬ Below p q) : (e.forget p).get? q = e.get? q := by
  apply getFrom_congr
  intro d _ hd
  have hpre : ¬ p <+: d := fun hpre => h (below_of_isPrefix_of_below hpre hd)
  rw [nil_append, find_forget, if_neg hpre]

private theorem Valid.forget (h : e.Valid) (hp : p ≠ []) : (e.forget p).Valid where
  closed := by
    intro d q hq hd
    rw [loaded_forget hp] at hq ⊢
    exact ⟨h.closed hq.1 hd, fun hpre => hq.2 (hpre.trans hd.isPrefix)⟩
  wellFormed := by
    intro dir entries name t hentries hfind
    have hload : (e.forget p).Loaded dir := by
      rw [Loaded, hentries]
      rfl
    have hpre := ((loaded_forget hp dir).mp hload).2
    have hold : e.entriesAt dir = some entries := by
      unfold entriesAt at hentries ⊢
      by_cases hdir : dir = []
      · rw [if_pos hdir] at hentries ⊢
        exact hentries
      · rw [if_neg hdir] at hentries ⊢
        rw [find_forget, if_neg hpre] at hentries
        exact hentries
    exact h.wellFormed hold hfind

/-- Splicing a subtree under loaded parents that are all directories. -/
theorem upsertSubtree_ok {sub : Tree} (hvalid : e.Valid)
    (hsub : sub.WellFormed) (hp : p ≠ [])
    (hconn : forall d, Below d p -> e.Loaded d -> e.IsDir d) :
    exists e', e.upsertSubtree p sub = .ok e' ∧ e'.Valid ∧
      (forall r, e'.blobAt (p ++ r) = sub.blobAt r) ∧
      (forall q, Below q p -> e'.IsDir q) ∧
      forall q, ¬ p <+: q -> ¬ Below q p -> e'.get? q = e.get? q := by
  rcases eq_nil_or_concat' p with rfl | ⟨dirs, name, rfl⟩
  · exact absurd rfl hp
  rcases put_ok hvalid name (Entry.tree (some sub))
      (by intro t' h; cases h; exact hsub) hconn with
    ⟨e₁, entries, hrun, hentries, hvalid', hself, hdirs, hother, _⟩
  refine ⟨(e₁.setEntriesAt dirs
    (entries.put name (Entry.tree (some sub)))).forget (dirs ++ [name]),
    ?_, hvalid'.forget hp, ?_, ?_, ?_⟩
  · unfold upsertSubtree forget
    rw [splitLast_append_singleton]
    simp [bind, Except.bind, pure, Except.pure, hrun, hentries]
  · intro r
    have hget : ((e₁.setEntriesAt dirs
        (entries.put name (Entry.tree (some sub)))).forget
          (dirs ++ [name])).get? (dirs ++ [name]) =
            some (Entry.tree (some sub)) := by
      rw [get?_forget _ (not_below_self _), hself]
    by_cases hr : r = []
    · subst hr
      rw [append_nil, blobAt, hget]
      simp [Entry.blob?]
    · unfold blobAt Tree.blobAt
      rw [get?_append _ hp hr, hget]
      simp only [childEntries, find_forget, prefix_rfl, if_true,
        getD_none, getD_some]
      rw [getFrom_loadTreeEntries]
      intro d _
      rw [find_forget, if_pos (prefix_append _ _)]
  · intro q hq
    have hnot : ¬ Below (dirs ++ [name]) q := fun hb => hb.not_symm hq
    rcases hdirs q hq with hnil | ⟨oid, hget⟩
    · exact .inl hnil
    · exact .inr ⟨oid, by rw [get?_forget _ hnot, hget]⟩
  · intro q hq hbelow
    have hnot : ¬ Below (dirs ++ [name]) q := fun hb => hq hb.isPrefix
    rw [get?_forget _ hnot, hother q hq (.inl hbelow)]

theorem upsertSubtree_fromTree {t sub : Tree} (hwf : t.WellFormed)
    (hsub : sub.WellFormed) (hp : p ≠ [])
    (hfile : forall d, Below d p -> t.blobAt d = none) :
    exists e', (fromTree t).upsertSubtree p sub = .ok e' ∧ e'.Valid ∧
      (forall r, e'.blobAt (p ++ r) = sub.blobAt r) ∧
      forall q, ¬ p <+: q -> e'.blobAt q = t.blobAt q := by
  have hconn : forall d, Below d p -> (fromTree t).Loaded d ->
      (fromTree t).IsDir d := by
    intro d _ hload
    rw [fromTree_loaded hload]
    exact isDir_nil _
  rcases upsertSubtree_ok (fromTree_valid hwf) hsub hp hconn with
    ⟨e', hrun, hvalid, hself, hdirs, hother⟩
  refine ⟨e', hrun, hvalid, hself, ?_⟩
  intro q hq
  by_cases hbelow : Below q p
  · rw [hfile q hbelow, blobAt_of_isDir (hdirs q hbelow)]
  · rw [← blobAt_fromTree t q, blobAt, blobAt, hother q hq hbelow]

/-!
# Edits that are lost

A loaded directory that no entry points to any more is skipped on the way
down, and what is stored below it is never read.
-/

theorem ensurePathLoaded_lost (hvalid : e.Valid) (dirs : Path)
    (hload : e.Loaded done) (hd : e.Loaded d)
    (hnot : ¬ e.IsDir d) (hpre : d <+: done ++ dirs) :
    exists e', e.ensurePathLoaded true done dirs = .ok (e', true) ∧
      e'.Valid ∧ (forall p, e'.get? p = e.get? p) ∧ e'.Loaded (done ++ dirs) := by
  induction dirs generalizing e done with
  | nil =>
    rw [append_nil]
    exact ⟨e, by rw [ensurePathLoaded], hvalid, fun _ => rfl, hload⟩
  | cons name rest ih =>
    have happ : done ++ name :: rest = (done ++ [name]) ++ rest := by simp
    rw [happ] at hpre ⊢
    by_cases hchild : e.Loaded (done ++ [name])
    · rw [ensurePathLoaded_loaded hchild]
      exact ih hvalid hchild hd hnot hpre
    have hdone : ¬ e.IsDir done := by
      rcases prefix_or_below_of_prefix (prefix_append _ _) hpre with
        hdeep | hdeep
      · exfalso
        rcases prefix_iff_eq_or_below.mp hdeep with heq | hbelow
        · exact hchild (heq ▸ hd)
        · exact hchild (hvalid.closed hd hbelow)
      · exact not_isDir_of_prefix hnot (below_append_singleton_iff.mp hdeep)
    rcases ensurePathLoaded_step hvalid rest hload hchild with
      ⟨e₁, hrun, hvalid₁, hloaded₁, _, hget₁⟩
    have hget₁ := hget₁ hdone
    have hnot₁ : ¬ e₁.IsDir d := by
      rw [isDir_congr hget₁]
      exact hnot
    rcases ih hvalid₁ ((hloaded₁ _).mpr (.inl rfl))
      ((hloaded₁ d).mpr (.inr hd)) hnot₁ hpre with
      ⟨e', hrun', hvalid', hget', hload'⟩
    refine ⟨e', by rw [hrun, hrun'], hvalid', ?_, hload'⟩
    intro p
    rw [hget', hget₁]

private theorem put_lost (hvalid : e.Valid) (name : Name) (entry : Entry)
    (hwf : forall t, entry = .tree (some t) -> t.WellFormed)
    (hbelow : Below d (dirs ++ [name])) (hd : e.Loaded d) (hnot : ¬ e.IsDir d) :
    exists e₁ entries,
      e.ensurePathLoaded true [] dirs = .ok (e₁, true) ∧
      e₁.entriesAt dirs = some entries ∧
      (e₁.setEntriesAt dirs (entries.put name entry)).Valid ∧
      forall p, (e₁.setEntriesAt dirs (entries.put name entry)).get? p =
        e.get? p := by
  have hpre : d <+: [] ++ dirs := below_append_singleton_iff.mp hbelow
  rcases ensurePathLoaded_lost hvalid dirs (loaded_nil e) hd hnot hpre with
    ⟨e₁, hrun, hvalid₁, hget₁, hload₁⟩
  rcases isSome_iff_exists.mp hload₁ with ⟨entries, hentries⟩
  refine ⟨e₁, entries, hrun, hentries, ?_, ?_⟩
  · exact hvalid₁.setEntriesAt_put hentries hwf
  · intro p
    rw [get?_setEntriesAt_of_not_isDir _ _ p, hget₁]
    rw [isDir_congr hget₁]
    exact not_isDir_of_prefix hnot hpre

theorem upsert_lost (hvalid : e.Valid)
    (oid : BlobId) (hbelow : Below d p) (hd : e.Loaded d) (hnot : ¬ e.IsDir d) :
    exists e', e.upsert p oid = .ok e' ∧ e'.Valid ∧
      forall q, e'.get? q = e.get? q := by
  rcases eq_nil_or_concat' p with rfl | ⟨dirs, name, rfl⟩
  · exact absurd (prefix_nil.mp hbelow.isPrefix) hbelow.ne
  rcases put_lost hvalid name (.blob oid) (by intro t h; cases h) hbelow hd
    hnot with ⟨e₁, entries, hrun, hentries, hvalid', hget⟩
  exact ⟨_, upsert_of_loaded name oid hrun hentries, hvalid', hget⟩

theorem upsertSubtree_lost {sub : Tree} (hvalid : e.Valid)
    (hsub : sub.WellFormed) (hbelow : Below d p) (hd : e.Loaded d)
    (hnot : ¬ e.IsDir d) :
    exists e', e.upsertSubtree p sub = .ok e' ∧ e'.Valid ∧
      forall q, e'.get? q = e.get? q := by
  rcases eq_nil_or_concat' p with rfl | ⟨dirs, name, rfl⟩
  · exact absurd (prefix_nil.mp hbelow.isPrefix) hbelow.ne
  rcases put_lost hvalid name (.tree (some sub))
      (by intro t' h; cases h; exact hsub) hbelow hd hnot with
    ⟨e₁, entries, hrun, hentries, hvalid', hget⟩
  refine ⟨(e₁.setEntriesAt dirs
    (entries.put name (.tree (some sub)))).forget (dirs ++ [name]),
    ?_, hvalid'.forget (by simp), ?_⟩
  · unfold upsertSubtree forget
    rw [splitLast_append_singleton]
    simp [bind, Except.bind, pure, Except.pure, hrun, hentries]
  intro q
  by_cases hq : Below (dirs ++ [name]) q
  · have hnone : e.get? q = none := get?_eq_none_of_below hnot (hbelow.trans hq)
    have hstill : ¬ ((e₁.setEntriesAt dirs
        (entries.put name (.tree (some sub)))).forget
          (dirs ++ [name])).IsDir d := by
      rintro (hnil | ⟨oid, hoid⟩)
      · exact hnot (.inl hnil)
      · rw [get?_forget _ hbelow.not_symm, hget] at hoid
        exact hnot (.inr ⟨oid, hoid⟩)
    rw [hnone, get?_eq_none_of_below hstill (hbelow.trans hq)]
  · rw [get?_forget _ hq, hget]

end TreeEditor
end Git
end OpenViking
