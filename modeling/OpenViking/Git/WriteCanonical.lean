import OpenViking.Git.Canonical
import OpenViking.Git.PathMap

/-!
# When a written tree is canonical

Writing leaves out a directory whose entries in memory are gone, but looks only
at the directory itself.  The written tree has no empty directory exactly when
every directory that still has entries holds a file.
-/

namespace OpenViking
namespace Git

open Paths Assoc List Option Git.Tree

namespace TreeEditor

/-!
# What the editor holds
-/

/-- The stored subtrees in memory are canonical and not empty, and a directory without
a stored subtree is loaded. -/
structure Held (e : TreeEditor) : Prop where
  stored : forall {dir : Path} {entries : TreeEntries} {name : Name} {t : Tree},
    e.entriesAt dir = some entries ->
    entries.find name = some (.tree (some t)) -> t ≠ .nil ∧ t.Canonical
  backed : forall {dir : Path} {entries : TreeEntries} {name : Name},
    e.entriesAt dir = some entries ->
    entries.find name = some (.tree none) -> e.Loaded (dir ++ [name])

theorem fromTree_held {t : Tree} (h : t.Canonical) : (fromTree t).Held := by
  have hroot : forall {dir : Path} {entries : TreeEntries},
      (fromTree t).entriesAt dir = some entries -> entries = t.loadTreeEntries := by
    intro dir entries hentries
    have hdir : dir = [] := fromTree_loaded (by rw [Loaded, hentries]; rfl)
    subst hdir
    cases hentries
    rfl
  constructor
  · intro dir entries name sub hentries hfind
    rw [hroot hentries] at hfind
    exact h.sub ((find_loadTreeEntries h.wellFormed).mp hfind)
  · intro dir entries name hentries hfind
    rw [hroot hentries] at hfind
    exact absurd ((find_loadTreeEntries h.wellFormed).mp hfind)
      (tree_none_not_mem_entries t name)

variable {e : TreeEditor} {entries : TreeEntries}

variable {dir : Path}

theorem Held.setEntriesAt (h : e.Held) (hstored : forall {name : Name} {t : Tree},
      entries.find name = some (.tree (some t)) -> t ≠ .nil ∧ t.Canonical)
    (hbacked : forall {name : Name}, entries.find name = some (.tree none) ->
      e.Loaded (dir ++ [name])) :
    (e.setEntriesAt dir entries).Held := by
  constructor
  · intro d es name t hes hfind
    rw [entriesAt_setEntriesAt] at hes
    split at hes
    · cases hes
      exact hstored hfind
    · exact h.stored hes hfind
  · intro d es name hes hfind
    rw [loaded_setEntriesAt]
    rw [entriesAt_setEntriesAt] at hes
    split at hes
    case isTrue hd =>
      cases hes
      rw [hd]
      exact .inr (hbacked hfind)
    case isFalse => exact .inr (h.backed hes hfind)

theorem Held.load (h : e.Held) {t : Tree}
    (ht : t.Canonical) : (e.setEntriesAt dir t.loadTreeEntries).Held := by
  apply h.setEntriesAt
  · intro name sub hfind
    exact ht.sub ((find_loadTreeEntries ht.wellFormed).mp hfind)
  · intro name hfind
    exact absurd ((find_loadTreeEntries ht.wellFormed).mp hfind)
      (tree_none_not_mem_entries t name)

theorem Held.empty (h : e.Held) (dir : Path) : (e.setEntriesAt dir ∅).Held :=
  h.load (t := .nil) ⟨trivial, trivial, trivial⟩

/-- A directory is created: its entry in the parent and its empty map. -/
theorem Held.create (h : e.Held) {done : Path} {name : Name}
    {parent : TreeEntries} (hparent : e.entriesAt done = some parent) :
    ((e.setEntriesAt done (parent.put name (.tree none))).setEntriesAt
      (done ++ [name]) ∅).Held := by
  constructor
  · intro d es n t hes hfind
    rw [entriesAt_setEntriesAt] at hes
    split at hes
    · cases hes
      cases hfind
    rw [entriesAt_setEntriesAt] at hes
    split at hes
    · cases hes
      rw [find_put] at hfind
      split at hfind
      · cases hfind
      · exact h.stored hparent hfind
    · exact h.stored hes hfind
  · intro d es n hes hfind
    rw [loaded_setEntriesAt, loaded_setEntriesAt]
    rw [entriesAt_setEntriesAt] at hes
    split at hes
    · cases hes
      cases hfind
    rw [entriesAt_setEntriesAt] at hes
    split at hes
    case isTrue hd =>
      cases hes
      rw [find_put] at hfind
      split at hfind
      case isTrue hn =>
        rw [hd, hn]
        exact .inl rfl
      case isFalse =>
        rw [hd]
        exact .inr (Or.inr (h.backed hparent hfind))
    case isFalse => exact .inr (Or.inr (h.backed hes hfind))

variable {e' : TreeEditor}

theorem Held.ensurePathLoaded (h : e.Held) {create present : Bool}
    {done dirs : Path}
    (hrun : e.ensurePathLoaded create done dirs = .ok (e', present)) :
    e'.Held := by
  induction dirs generalizing e done with
  | nil =>
    rw [TreeEditor.ensurePathLoaded] at hrun
    cases hrun
    exact h
  | cons name rest ih =>
    rw [TreeEditor.ensurePathLoaded] at hrun
    split at hrun
    · exact ih h hrun
    split at hrun
    · cases hrun
    case h_2 parent hparent =>
      split at hrun
      case h_1 t hfind => exact ih (h.load (h.stored hparent hfind).2) hrun
      case h_2 => exact ih (h.empty _) hrun
      case h_3 =>
        split at hrun
        · exact ih (h.create hparent) hrun
        · cases hrun
          exact h

theorem Held.put (h : e.Held)
    (hentries : e.entriesAt dir = some entries) (name : Name) (oid : BlobId) :
    (e.setEntriesAt dir (entries.put name (.blob oid))).Held := by
  apply h.setEntriesAt
  · intro n t hfind
    rw [find_put] at hfind
    split at hfind
    · cases hfind
    · exact h.stored hentries hfind
  · intro n hfind
    rw [find_put] at hfind
    split at hfind
    · cases hfind
    · exact h.backed hentries hfind

theorem Held.del (h : e.Held)
    (hentries : e.entriesAt dir = some entries) (name : Name) :
    (e.setEntriesAt dir (entries.del name)).Held := by
  apply h.setEntriesAt
  · intro n t hfind
    rw [find_del] at hfind
    split at hfind
    · cases hfind
    · exact h.stored hentries hfind
  · intro n hfind
    rw [find_del] at hfind
    split at hfind
    · cases hfind
    · exact h.backed hentries hfind

theorem splitLast_of_ne_nil {p : Path} (hp : p ≠ []) :
    exists dirs name, p = dirs ++ [name] ∧ splitLast p = .ok (dirs, name) := by
  rcases eq_nil_or_concat' p with rfl | ⟨dirs, name, rfl⟩
  · exact absurd rfl hp
  · exact ⟨dirs, name, rfl, splitLast_append_singleton dirs name⟩

theorem Held.upsert (h : e.Held) {p : Path} (hp : p ≠ [])
    {oid : BlobId} (hrun : e.upsert p oid = .ok e') : e'.Held := by
  rcases splitLast_of_ne_nil hp with ⟨dirs, name, rfl, hsplit⟩
  unfold TreeEditor.upsert at hrun
  rw [hsplit] at hrun
  by_cases hdirs : dirs = []
  · subst hdirs
    cases hrun
    exact h.put rfl name oid
  cases hload : e.ensurePathLoaded true [] dirs with
  | error err =>
    simp [bind, Except.bind, hdirs, hload] at hrun
  | ok loaded =>
    rcases loaded with ⟨e₁, present⟩
    have hheld := h.ensurePathLoaded hload
    simp only [bind, Except.bind, hdirs, if_false, hload] at hrun
    cases hrun
    cases hfind : e₁.subtrees.find dirs with
    | some entries =>
      apply hheld.put
      rw [← find_subtrees_eq_entriesAt e₁ hdirs, hfind]
      rfl
    | none =>
      apply hheld.setEntriesAt
      · intro n t hfind'
        rw [getD_none, find_put] at hfind'
        split at hfind'
        · cases hfind'
        · cases hfind'
      · intro n hfind'
        rw [getD_none, find_put] at hfind'
        split at hfind'
        · cases hfind'
        · cases hfind'

theorem Held.remove (h : e.Held) {p : Path} (hp : p ≠ [])
    (hrun : e.remove p = .ok e') : e'.Held := by
  rcases splitLast_of_ne_nil hp with ⟨dirs, name, rfl, hsplit⟩
  unfold TreeEditor.remove at hrun
  rw [hsplit] at hrun
  by_cases hdirs : dirs = []
  · subst hdirs
    cases hrun
    exact h.del rfl name
  cases hload : e.ensurePathLoaded false [] dirs with
  | error err =>
    simp [bind, Except.bind, hdirs, hload] at hrun
  | ok loaded =>
    rcases loaded with ⟨e₁, present⟩
    have hheld := h.ensurePathLoaded hload
    simp only [bind, Except.bind, hdirs, if_false, hload] at hrun
    cases present with
    | false =>
      cases hrun
      exact hheld
    | true =>
      cases hfind : e₁.subtrees.find dirs with
      | none =>
        rw [hfind] at hrun
        cases hrun
        exact hheld
      | some entries =>
        rw [hfind] at hrun
        cases hrun
        apply hheld.del
        rw [← find_subtrees_eq_entriesAt e₁ hdirs, hfind]

/-!
# The written directories
-/

theorem sortKey_storedEntry (name : Name) (entry : Entry) :
    sortKey (name, storedEntry entry) = sortKey (name, entry) := by
  cases entry <;> rfl

theorem ordered_treeOfEntries {bs : List (Name × Entry)} (h : bs.Pairwise EntryLe)
    (hsub : forall name t, (name, .tree (some t)) ∈ bs -> t.Ordered) :
    (treeOfEntries bs).Ordered := by
  induction bs with
  | nil => trivial
  | cons b rest ih =>
    rcases b with ⟨name, entry⟩
    have hcons := pairwise_cons.mp h
    have hrest := ih hcons.2
      (fun name t hmem => hsub name t (mem_cons_of_mem _ hmem))
    have hhead : forall c, c ∈ (treeOfEntries rest).entries ->
        EntryLe (name, storedEntry entry) c := by
      rintro ⟨n, stored⟩ hc
      rcases mem_entries_treeOfEntries.mp hc with ⟨old, hmem, rfl⟩
      rw [EntryLe, sortKey_storedEntry, sortKey_storedEntry]
      exact hcons.1 _ hmem
    cases entry with
    | blob oid => exact ⟨hhead, hrest⟩
    | tree oid =>
      refine ⟨hhead, ?_, hrest⟩
      cases oid with
      | none => trivial
      | some t => exact hsub name t mem_cons_self

instance totalEntryLe : Std.Total EntryLe :=
  ⟨fun a b => le_total (sortKey a) (sortKey b)⟩

instance transEntryLe : IsTrans (Name × Entry) EntryLe :=
  ⟨fun _ _ _ hab hbc => le_trans hab hbc⟩

theorem writeSubtree_ordered (hheld : e.Held) (fuel : Nat)
    {pre : Path} (hentries : e.entriesAt pre = some entries) :
    (e.writeSubtree fuel pre entries).Ordered := by
  induction fuel generalizing pre entries with
  | zero => trivial
  | succ fuel ih =>
    rw [writeSubtree_succ]
    apply ordered_treeOfEntries (pairwise_insertionSort EntryLe _)
    intro name t hmem
    rw [mem_insertionSort, mem_filterMap] at hmem
    rcases hmem with ⟨⟨n, old⟩, hbind, hmap⟩
    rcases map_eq_some_iff.mp hmap with ⟨new, hnew, heq⟩
    cases heq
    cases old with
    | blob oid => cases hnew
    | tree oid =>
      simp only [writeEntry] at hnew
      cases hchild : e.subtrees.find (pre ++ [n]) with
      | none =>
        rw [hchild] at hnew
        cases hnew
        exact (hheld.stored hentries (mem_bindings.mp hbind)).2.ordered
      | some child =>
        rw [hchild] at hnew
        dsimp only at hnew
        split at hnew
        · cases hnew
        · cases hnew
          apply ih
          rw [← find_subtrees_eq_entriesAt e (by simp), hchild]

end TreeEditor

theorem Tree.pruned_of_entries {t : Tree}
    (h : forall name sub, (name, .tree (some sub)) ∈ t.entries ->
      sub ≠ .nil ∧ sub.Pruned) : t.Pruned := by
  induction t with
  | nil => trivial
  | blob name oid rest ih =>
    exact ih fun n sub hmem => h n sub (mem_cons_of_mem _ hmem)
  | dir name sub rest _ ih =>
    have hself := h name sub mem_cons_self
    exact ⟨hself.1, hself.2, ih fun n s hmem => h n s (mem_cons_of_mem _ hmem)⟩

theorem Tree.blobAt_empty (p : Path) : nil.blobAt p = none := by
  cases p with
  | nil => rfl
  | cons name rest => rfl

theorem Tree.get?_ne_tree_none {t : Tree} (hwf : t.WellFormed) (p : Path) :
    t.get? p ≠ some (.tree none) := by
  intro h
  induction p generalizing t with
  | nil =>
    rw [get?_nil_path] at h
    cases h
  | cons name rest ih =>
    by_cases hrest : rest = []
    · subst hrest
      rw [get?_singleton, find_loadTreeEntries hwf] at h
      exact tree_none_not_mem_entries t name h
    rw [get?_cons t name hrest] at h
    cases hfind : t.loadTreeEntries.find name with
    | none =>
      rw [hfind] at h
      cases h
    | some entry =>
      rw [hfind] at h
      cases entry with
      | blob oid => cases h
      | tree oid =>
        cases oid with
        | none => cases h
        | some sub => exact ih (wellFormed_of_find hwf hfind) h

theorem Entry.eq_blob_of_bind {found : Option Entry} {file : BlobId}
    (h : found.bind Entry.blob? = some file) : found = some (Entry.blob file) := by
  cases found with
  | none => cases h
  | some entry =>
    cases entry with
    | blob oid =>
      cases h
      rfl
    | tree oid => cases h

namespace TreeEditor

/-- Every directory below `pre` that has entries holds a file. -/
def PopulatedFrom (subtrees : Path -> Option TreeEntries) (pre : Path)
    (entries : TreeEntries) : Prop :=
  forall d oid, getFrom subtrees pre entries d = some (.tree oid) ->
    (childEntries subtrees (pre ++ d) oid).keys ≠ [] ->
    exists r file, getFrom subtrees pre entries (d ++ r) = some (.blob file)

variable {entries : TreeEntries}

variable {name : Name} {pre : Path}

theorem PopulatedFrom.child {subtrees : Path -> Option TreeEntries}
    {child : TreeEntries} (h : PopulatedFrom subtrees pre entries) {oid : Option Tree}
    (hfind : entries.find name = some (.tree oid))
    (hchild : subtrees (pre ++ [name]) = some child) :
    PopulatedFrom subtrees (pre ++ [name]) child := by
  have hread : forall q, q ≠ [] -> getFrom subtrees pre entries (name :: q) =
      getFrom subtrees (pre ++ [name]) child q := by
    intro q hq
    rw [getFrom_cons _ _ _ _ hq, hfind]
    simp only [childEntries, hchild, getD_some]
  intro d oid' hget hkeys
  have hd : d ≠ [] := by
    rintro rfl
    cases hget
  have hkeys' : (childEntries subtrees (pre ++ name :: d) oid').keys ≠ [] := by
    rw [append_cons]
    exact hkeys
  rcases h (name :: d) oid' (by rw [hread d hd, hget]) hkeys' with ⟨r, file, hfile⟩
  refine ⟨r, file, ?_⟩
  rw [← hread (d ++ r) (by simp [hd])]
  exact hfile

variable {e : TreeEditor}

variable {fuel : Nat}

theorem mem_entries_writeSubtree_loaded {child : TreeEntries} {oid : Option Tree}
    (hfind : entries.find name = some (.tree oid))
    (hchild : e.subtrees.find (pre ++ [name]) = some child) (hkeys : child.keys ≠ []) :
    (name, .tree (some (e.writeSubtree fuel (pre ++ [name]) child))) ∈
      (e.writeSubtree (fuel + 1) pre entries).entries := by
  apply mem_entries_writeSubtree.mpr
  refine ⟨_, .tree (some (e.writeSubtree fuel (pre ++ [name]) child)), hfind, ?_,
    rfl⟩
  rw [writeEntry, hchild]
  exact if_neg hkeys

theorem loaded_bound
    (hfuel : forall d, e.Loaded (pre ++ d) -> d.length < fuel + 1) (d : Path)
    (hd : e.Loaded (pre ++ [name] ++ d)) : d.length < fuel := by
  have h := hfuel (name :: d) (by simpa using hd)
  simpa using h

theorem writeSubtree_pruned (hvalid : e.Valid) (hheld : e.Held)
    (hentries : e.entriesAt pre = some entries)
    (hfuel : forall d, e.Loaded (pre ++ d) -> d.length < fuel)
    (hpop : PopulatedFrom e.subtrees.find pre entries) :
    (e.writeSubtree fuel pre entries).Pruned := by
  induction fuel generalizing pre entries with
  | zero => trivial
  | succ fuel ih =>
    apply pruned_of_entries
    intro name sub hmem
    rcases mem_entries_writeSubtree.mp hmem with ⟨old, new, hfind, hnew, hstored⟩
    cases old with
    | blob oid =>
      cases hnew
      cases hstored
    | tree oid =>
      simp only [writeEntry] at hnew
      cases hchild : e.subtrees.find (pre ++ [name]) with
      | none =>
        rw [hchild] at hnew
        cases hnew
        cases oid with
        | none =>
          have hload := hheld.backed hentries hfind
          rw [Loaded, ← find_subtrees_eq_entriesAt e (by simp), hchild] at hload
          cases hload
        | some t =>
          cases hstored
          have ht := hheld.stored hentries hfind
          exact ⟨ht.1, ht.2.pruned⟩
      | some child =>
        rw [hchild] at hnew
        dsimp only at hnew
        split at hnew
        case isTrue => cases hnew
        case isFalse hkeys =>
          cases hnew
          cases hstored
          have hat : e.entriesAt (pre ++ [name]) = some child := by
            rw [← find_subtrees_eq_entriesAt e (by simp), hchild]
          have hpruned := ih hat (loaded_bound hfuel) (hpop.child hfind hchild)
          refine ⟨?_, hpruned⟩
          intro hnil
          have hdir : getFrom e.subtrees.find pre entries [name] =
              some (.tree oid) := by
            rw [getFrom_singleton, hfind]
          have hkeys' : (childEntries e.subtrees.find (pre ++ [name])
              oid).keys ≠ [] := by
            rw [childEntries, hchild]
            exact hkeys
          rcases hpop [name] oid hdir hkeys' with ⟨r, file, hfile⟩
          have hr : r ≠ [] := by
            rintro rfl
            rw [append_nil, hdir] at hfile
            cases hfile
          rw [singleton_append, getFrom_cons _ _ _ _ hr, hfind] at hfile
          simp only [childEntries, hchild, getD_some] at hfile
          have hblob := blobAt_writeSubtree hvalid hat (loaded_bound hfuel) r
          have hnil' : e.writeSubtree fuel (pre ++ [name]) child = .nil := hnil
          rw [hnil', blobAt_empty, hfile] at hblob
          cases hblob

theorem exists_file_of_stored {t : Tree} (ht : t.Canonical) (hne : t ≠ .nil) :
    exists r file, t.get? r = some (.blob file) := by
  rcases Tree.exists_blobAt ht.wellFormed ht.pruned hne with ⟨r, file, hfile⟩
  exact ⟨r, file, Tree.blobAt_eq_some_iff.mp hfile⟩

/-- A directory of a canonical tree that is not empty holds a file. -/
theorem exists_file_below {t sub : Tree} (ht : t.Canonical) {d : Path}
    (hd : t.get? d = some (.tree (some sub))) :
    exists r file, t.get? (d ++ r) = some (.blob file) := by
  have hsub : sub ≠ .nil ∧ sub.Canonical := by
    induction d generalizing t with
    | nil =>
      rw [Tree.get?_nil_path] at hd
      cases hd
    | cons name rest ih =>
      by_cases hrest : rest = []
      · subst hrest
        rw [Tree.get?_singleton, Tree.find_loadTreeEntries ht.wellFormed] at hd
        exact ht.sub hd
      rw [Tree.get?_cons t name hrest] at hd
      cases hfind : t.loadTreeEntries.find name with
      | none =>
        rw [hfind] at hd
        cases hd
      | some entry =>
        rw [hfind] at hd
        cases entry with
        | blob oid => cases hd
        | tree oid =>
          cases oid with
          | none => cases hd
          | some next =>
            exact ih (ht.sub ((Tree.find_loadTreeEntries ht.wellFormed).mp
              hfind)).2 hd
  rcases exists_file_of_stored hsub.2 hsub.1 with ⟨r, file, hfile⟩
  refine ⟨r, file, ?_⟩
  rw [← Tree.blobAt_eq_some_iff, Tree.blobAt_append hd, Tree.blobAt_eq_some_iff]
  exact hfile

theorem find_below_unloaded (hvalid : e.Valid) {p : Path} (hp : p ≠ [])
    (hnone : e.subtrees.find p = none) (d : Path) : e.subtrees.find (p ++ d) = none := by
  by_cases hd : d = []
  · rw [hd, append_nil]
    exact hnone
  · have hnot : ¬ e.Loaded (p ++ d) := by
      intro hload
      have h := hvalid.closed hload (below_iff_exists.mpr ⟨d, hd, rfl⟩)
      rw [Loaded, ← find_subtrees_eq_entriesAt e hp, hnone] at h
      cases h
    simpa using (not_loaded_iff e (by simp [hp])).mpr hnot

theorem writeSubtree_populated (hvalid : e.Valid) (hheld : e.Held)
    (hentries : e.entriesAt pre = some entries)
    (hfuel : forall d, e.Loaded (pre ++ d) -> d.length < fuel)
    (hpruned : (e.writeSubtree fuel pre entries).Pruned) :
    PopulatedFrom e.subtrees.find pre entries := by
  induction fuel generalizing pre entries with
  | zero =>
    have h := hfuel [] (by simp [Loaded, hentries])
    cases h
  | succ fuel ih =>
    intro d oid hget hkeys
    cases d with
    | nil => cases hget
    | cons name rest =>
      have hdir : exists oid', entries.find name = some (.tree oid') := by
        by_cases hrest : rest = []
        · subst hrest
          rw [getFrom_singleton] at hget
          exact ⟨oid, hget⟩
        rw [getFrom_cons _ _ _ _ hrest] at hget
        cases hfind : entries.find name with
        | none =>
          rw [hfind] at hget
          cases hget
        | some entry =>
          cases entry with
          | blob file =>
            rw [hfind] at hget
            cases hget
          | tree oid' => exact ⟨oid', rfl⟩
      rcases hdir with ⟨oid', hfind⟩
      have hread : forall q, q ≠ [] -> getFrom e.subtrees.find pre entries (name :: q) =
          getFrom e.subtrees.find (pre ++ [name])
            (childEntries e.subtrees.find (pre ++ [name]) oid') q := by
        intro q hq
        rw [getFrom_cons _ _ _ _ hq, hfind]
      cases hchild : e.subtrees.find (pre ++ [name]) with
      | none =>
        -- the directory and all below it are read from the stored subtree
        cases oid' with
        | none =>
          have hload := hheld.backed hentries hfind
          rw [Loaded, ← find_subtrees_eq_entriesAt e (by simp), hchild] at hload
          cases hload
        | some t =>
          have ht := hheld.stored hentries hfind
          have hbelow : forall q, q ≠ [] ->
              getFrom e.subtrees.find pre entries (name :: q) = t.get? q := by
            intro q hq
            rw [hread q hq, childEntries, hchild]
            apply getFrom_loadTreeEntries
            intro r _
            exact find_below_unloaded hvalid (by simp) hchild r
          by_cases hrest : rest = []
          · subst hrest
            rcases exists_file_of_stored ht.2 ht.1 with ⟨r, file, hfile⟩
            have hr : r ≠ [] := by
              rintro rfl
              rw [get?_nil_path] at hfile
              cases hfile
            exact ⟨r, file, by rw [singleton_append, hbelow r hr, hfile]⟩
          · have hsub : exists sub, oid = some sub := by
              cases oid with
              | some sub => exact ⟨sub, rfl⟩
              | none =>
                rw [hbelow rest hrest] at hget
                exact absurd hget (get?_ne_tree_none ht.2.wellFormed rest)
            rcases hsub with ⟨sub, rfl⟩
            rw [hbelow rest hrest] at hget
            rcases exists_file_below ht.2 hget with ⟨r, file, hfile⟩
            refine ⟨r, file, ?_⟩
            rw [cons_append, hbelow (rest ++ r) (by simp [hrest]), hfile]
      | some child =>
        have hat : e.entriesAt (pre ++ [name]) = some child := by
          rw [← find_subtrees_eq_entriesAt e (by simp), hchild]
        have hchildKeys : child.keys ≠ [] := by
          by_cases hrest : rest = []
          · subst hrest
            rw [childEntries, hchild] at hkeys
            exact hkeys
          · intro hnil
            rw [hread rest hrest, childEntries, hchild, getD_some,
              getFrom_of_keys_nil _ _ hnil] at hget
            cases hget
        have hsub := hpruned.sub
          (mem_entries_writeSubtree_loaded hfind hchild hchildKeys)
        by_cases hrest : rest = []
        · subst hrest
          have hwf := writeSubtree_wellFormed hvalid fuel hat
          rcases exists_blobAt hwf hsub.2 hsub.1 with ⟨r, file, hfile⟩
          rw [blobAt_writeSubtree hvalid hat (loaded_bound hfuel)] at hfile
          have hr : r ≠ [] := by
            rintro rfl
            cases hfile
          refine ⟨r, file, ?_⟩
          rw [singleton_append, hread r hr, childEntries, hchild,
            getD_some]
          exact Entry.eq_blob_of_bind hfile
        · rw [hread rest hrest, childEntries, hchild, getD_some] at hget
          have hkeys' : (childEntries e.subtrees.find (pre ++ [name] ++ rest)
              oid).keys ≠ [] := by
            rw [← append_cons]
            exact hkeys
          rcases ih hat (loaded_bound hfuel) hsub.2 rest oid hget hkeys' with
            ⟨r, file, hfile⟩
          refine ⟨r, file, ?_⟩
          rw [cons_append, hread (rest ++ r) (by simp [hrest]), childEntries,
            hchild, getD_some]
          exact hfile

end TreeEditor
end Git
end OpenViking
