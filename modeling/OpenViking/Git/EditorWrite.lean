import OpenViking.Git.EditorOps

/-!
# The written tree

Writing an edited tree stores exactly the files that the editor stands for.
The file-map form of the editing steps, which the commit and restore proofs
use, is collected here as well.
-/

namespace OpenViking
namespace Git

open Paths List

namespace TreeEditor

/-!
# Editing steps on the file map
-/

variable {p : Path}

theorem blobAt_eq_of_get? {e e' : TreeEditor}
    (h : e'.get? p = e.get? p) : e'.blobAt p = e.blobAt p := by
  unfold blobAt
  rw [h]

/--
Every loaded directory is a directory of the edited tree, unless it is at or
below a path outside `D`.
-/
def Anchored (D : Path -> Prop) (e : TreeEditor) : Prop :=
  forall p, e.Loaded p -> e.IsDir p ∨ exists d, d <+: p ∧ ¬ D d

theorem fromTree_anchored (D : Path -> Prop) (t : Tree) :
    Anchored D (fromTree t) := by
  intro p hp
  rw [fromTree_loaded hp]
  exact .inl (isDir_nil _)

variable {e : TreeEditor}

variable {D : Path -> Prop}

theorem Anchored.isDir_of_below
    (h : Anchored D e) (hD : forall d, Below d p -> D d) {d : Path}
    (hd : Below d p) (hload : e.Loaded d) : e.IsDir d := by
  rcases h d hload with hdir | ⟨c, hc, hnot⟩
  · exact hdir
  · exact absurd (hD c (below_of_isPrefix_of_below hc hd)) hnot

/--
Storing a blob under existing directories of `D`, at a path that is outside
`D` or holds nothing in memory.
-/
theorem upsert_anchored (hvalid : e.Valid) (hanch : Anchored D e) (hp : p ≠ [])
    (oid : BlobId) (hD : forall d, Below d p -> D d)
    (hnot : ¬ D p ∨ forall q, p <+: q -> ¬ e.Loaded q) :
    exists e', e.upsert p oid = Except.ok e' ∧ e'.Valid ∧ Anchored D e' ∧
      (forall q, e'.blobAt q =
        if q = p then some oid
        else if Below p q ∨ Below q p then none
        else e.blobAt q) ∧
      (forall q, e'.Loaded q -> e.Loaded q ∨ Below q p) := by
  rcases upsert_ok hvalid hp oid (fun d => hanch.isDir_of_below hD) with
    ⟨e', hrun, hvalid', hself, hdirs, hbelow, hother, hloaded⟩
  refine ⟨e', hrun, hvalid', ?_, ?_, fun q => (hloaded q).mp⟩
  · intro q hq
    rcases (hloaded q).mp hq with hq | hq
    · by_cases hpre : p <+: q
      · rcases hnot with hnot | hnot
        · exact .inr ⟨p, hpre, hnot⟩
        · exact absurd hq (hnot q hpre)
      rcases hanch q hq with hdir | hdir
      · by_cases hqp : Below q p
        · exact .inl (hdirs q hqp)
        · rcases hdir with hnil | ⟨oid', hget⟩
          · exact .inl (.inl hnil)
          · exact .inl (.inr ⟨oid', by
              rw [hother q hpre (.inl hqp), hget]⟩)
      · exact .inr hdir
    · exact .inl (hdirs q hq)
  · intro q
    by_cases heq : q = p
    · rw [if_pos heq, heq, blobAt_eq_some_iff]
      exact hself
    rw [if_neg heq]
    by_cases hrel : Below p q ∨ Below q p
    · rw [if_pos hrel]
      rcases hrel with hrel | hrel
      · unfold blobAt
        rw [hbelow q hrel]
        rfl
      · exact blobAt_of_isDir (hdirs q hrel)
    · rw [if_neg hrel]
      rw [not_or] at hrel
      apply blobAt_eq_of_get?
      apply hother q _ (.inl hrel.2)
      intro hpre
      rcases prefix_iff_eq_or_below.mp hpre with h | h
      · exact heq h.symm
      · exact hrel.1 h

/-- Removing a path that is outside `D` or holds nothing in memory. -/
theorem remove_anchored (hvalid : e.Valid) (hanch : Anchored D e) (hp : p ≠ [])
    (hD : ¬ D p ∨ forall q, p <+: q -> ¬ e.Loaded q) :
    exists e', e.remove p = Except.ok e' ∧ e'.Valid ∧ Anchored D e' ∧
      (forall q, e'.blobAt q = if p <+: q then none else e.blobAt q) ∧
      (forall q, e'.Loaded q -> e.Loaded q ∨ Below q p) := by
  rcases remove_ok hvalid hp with ⟨e', hrun, hvalid', hget, hloaded⟩
  have hdir' : forall q, ¬ p <+: q -> e.IsDir q -> e'.IsDir q := by
    intro q hpre hdir
    rcases hdir with hnil | ⟨oid, hoid⟩
    · exact .inl hnil
    · exact .inr ⟨oid, by rw [hget, if_neg hpre, hoid]⟩
  refine ⟨e', hrun, hvalid', ?_, ?_, ?_⟩
  · intro q hq
    rcases hloaded q hq with hq | ⟨hbelow, hq⟩
    · rcases hanch q hq with hdir | hdir
      · by_cases hpre : p <+: q
        · rcases hD with hD | hD
          · exact .inr ⟨p, hpre, hD⟩
          · exact absurd hq (hD q hpre)
        · exact .inl (hdir' q hpre hdir)
      · exact .inr hdir
    · have hpre : ¬ p <+: q := by
        intro hpre
        have := hbelow.length_lt
        have := hpre.length_le
        omega
      rcases hq with hdir | ⟨d, hd, hdl, hdd⟩
      · exact .inl (hdir' q hpre hdir)
      · rcases hanch d hdl with hdir | ⟨c, hc, hnot⟩
        · exact absurd hdir hdd
        · exact .inr ⟨c, hc.trans hd.isPrefix, hnot⟩
  · intro q
    unfold blobAt
    rw [hget]
    by_cases hpre : p <+: q
    · rw [if_pos hpre, if_pos hpre]
      rfl
    · rw [if_neg hpre, if_neg hpre]
  · intro q hq
    rcases hloaded q hq with hq | ⟨hbelow, _⟩
    · exact .inl hq
    · exact .inr hbelow

/-!
# Trees built from entry lists
-/

variable {bs : List (Name × Entry)}

theorem entries_treeOfEntries
    (h : forall name, (name, .tree none) ∉ bs) :
    (treeOfEntries bs).entries = bs := by
  induction bs with
  | nil => rfl
  | cons b rest ih =>
    have hrest : forall name, (name, .tree none) ∉ rest :=
      fun name hmem => h name (mem_cons_of_mem _ hmem)
    rcases b with ⟨name, entry⟩
    cases entry with
    | blob oid => rw [treeOfEntries, Tree.entries, ih hrest]
    | tree oid =>
      cases oid with
      | none => exact absurd mem_cons_self (h name)
      | some t => rw [treeOfEntries, Tree.entries, ih hrest]; rfl

/-- The null id is stored as an empty tree. -/
def storedEntry : Entry -> Entry
  | .blob oid => .blob oid
  | .tree oid => .tree (some (oid.getD .nil))

theorem treeOfEntries_map_storedEntry (bs : List (Name × Entry)) :
    treeOfEntries (bs.map fun b => (b.1, storedEntry b.2)) =
      treeOfEntries bs := by
  induction bs with
  | nil => rfl
  | cons b rest ih =>
    rcases b with ⟨name, entry⟩
    rw [map_cons]
    cases entry with
    | blob oid => exact congrArg (Tree.blob name oid) ih
    | tree oid => exact congrArg (Tree.dir name (oid.getD Tree.nil)) ih

theorem wellFormed_treeOfEntries
    (hnodup : (bs.map Prod.fst).Nodup)
    (hwf : forall name t, (name, Entry.tree (some t)) ∈ bs ->
      t.WellFormed) : (treeOfEntries bs).WellFormed := by
  induction bs with
  | nil => trivial
  | cons b rest ih =>
    have hnames : (treeOfEntries rest).names = rest.map Prod.fst := by
      rw [← treeOfEntries_map_storedEntry, Tree.names, entries_treeOfEntries]
      · simp [Function.comp_def]
      · intro name hmem
        rcases mem_map.mp hmem with ⟨⟨n, entry⟩, _, heq⟩
        cases entry <;> simp [storedEntry] at heq
    have hcons := nodup_cons.mp hnodup
    have hrec := ih hcons.2
      (fun name t hmem => hwf name t (mem_cons_of_mem _ hmem))
    rcases b with ⟨name, entry⟩
    cases entry with
    | blob oid =>
      exact ⟨by rw [hnames]; exact hcons.1, hrec⟩
    | tree oid =>
      refine ⟨by rw [hnames]; exact hcons.1, ?_, hrec⟩
      cases oid with
      | none => trivial
      | some t => exact hwf name t mem_cons_self

theorem mem_entries_treeOfEntries {name : Name}
    {entry : Entry} :
    (name, entry) ∈ (treeOfEntries bs).entries <->
      exists entry', (name, entry') ∈ bs ∧ storedEntry entry' = entry := by
  rw [← treeOfEntries_map_storedEntry, entries_treeOfEntries]
  · rw [mem_map]
    constructor
    · rintro ⟨⟨n, entry'⟩, hmem, heq⟩
      cases heq
      exact ⟨entry', hmem, rfl⟩
    · rintro ⟨entry', hmem, rfl⟩
      exact ⟨(name, entry'), hmem, rfl⟩
  · intro n hmem
    rcases mem_map.mp hmem with ⟨⟨n', entry'⟩, _, heq⟩
    cases entry' <;> simp [storedEntry] at heq

/-!
# What `write` stores
-/

/-- The entry that `writeSubtree` stores for one in-memory entry, if any. -/
def writeEntry (e : TreeEditor) (fuel : Nat) (pre : Path)
    (name : Name) : Entry -> Option Entry
  | .blob oid => some (.blob oid)
  | .tree oid =>
    match e.subtrees.find (pre ++ [name]) with
    | some childEntries =>
      if childEntries.keys = [] then
        none
      else
        some (.tree (some
          (e.writeSubtree fuel (pre ++ [name]) childEntries)))
    | none => some (.tree oid)

theorem writeSubtree_succ (e : TreeEditor) (fuel : Nat) (pre : Path)
    (entries : TreeEntries) :
    e.writeSubtree (fuel + 1) pre entries =
      treeOfEntries ((entries.bindings.filterMap fun b =>
        (writeEntry e fuel pre b.1 b.2).map (Prod.mk b.1)).insertionSort
          EntryLe) := by
  rw [writeSubtree]
  congr 2
  apply filterMap_congr
  intro b _
  cases hb : b.2 with
  | blob oid => rfl
  | tree oid =>
    simp only [writeEntry]
    cases e.subtrees.find (pre ++ [b.1]) with
    | none => rfl
    | some childEntries =>
      by_cases hkeys : childEntries.keys = []
      · simp [hkeys]
      · simp [hkeys]

variable {entries : TreeEntries}

variable {pre : Path}

theorem mem_entries_writeSubtree {fuel : Nat} {name : Name} {entry : Entry} :
    (name, entry) ∈ (e.writeSubtree (fuel + 1) pre entries).entries <->
      exists old new, entries.find name = some old ∧
        writeEntry e fuel pre name old = some new ∧
          storedEntry new = entry := by
  rw [writeSubtree_succ, mem_entries_treeOfEntries]
  constructor
  · rintro ⟨new, hmem, hstored⟩
    rw [mem_insertionSort, mem_filterMap] at hmem
    rcases hmem with ⟨⟨n, old⟩, hbind, hmap⟩
    rcases Option.map_eq_some_iff.mp hmap with ⟨new', hnew, heq⟩
    cases heq
    exact ⟨old, new, Assoc.mem_bindings.mp hbind, hnew, hstored⟩
  · rintro ⟨old, new, hfind, hnew, hstored⟩
    refine ⟨new, ?_, hstored⟩
    rw [mem_insertionSort, mem_filterMap]
    exact ⟨(name, old), Assoc.mem_bindings.mpr hfind, by simp [hnew]⟩

private theorem nodup_filterMap_fst (bs : List (Name × Entry))
    (f : Name -> Entry -> Option Entry) (h : (bs.map Prod.fst).Nodup) :
    ((bs.filterMap fun b => (f b.1 b.2).map (Prod.mk b.1)).map
      Prod.fst).Nodup := by
  apply List.Nodup.sublist _ h
  rw [map_filterMap]
  induction bs with
  | nil => exact List.Sublist.refl _
  | cons b rest ih =>
    have hrest := ih (nodup_cons.mp h).2
    rw [filterMap_cons, map_cons]
    cases hb : f b.1 b.2 with
    | none => exact hrest.cons _
    | some entry => exact hrest.cons_cons _

theorem writeSubtree_wellFormed (hvalid : e.Valid)
    (fuel : Nat)
    (hentries : e.entriesAt pre = some entries) :
    (e.writeSubtree fuel pre entries).WellFormed := by
  induction fuel generalizing pre entries with
  | zero => trivial
  | succ fuel ih =>
    rw [writeSubtree_succ]
    apply wellFormed_treeOfEntries
    · have hperm := (perm_insertionSort EntryLe
        (entries.bindings.filterMap fun b =>
          (writeEntry e fuel pre b.1 b.2).map (Prod.mk b.1))).map Prod.fst
      rw [hperm.nodup_iff]
      exact nodup_filterMap_fst _ _ (Assoc.nodup_bindings_keys entries)
    · intro name t hmem
      rw [mem_insertionSort, mem_filterMap] at hmem
      rcases hmem with ⟨⟨n, old⟩, hbind, hmap⟩
      rcases Option.map_eq_some_iff.mp hmap with ⟨new, hnew, heq⟩
      cases heq
      cases old with
      | blob oid => simp [writeEntry] at hnew
      | tree oid =>
        simp only [writeEntry] at hnew
        cases hchild : e.subtrees.find (pre ++ [n]) with
        | none =>
          rw [hchild] at hnew
          have hoid : oid = some t := by simpa using hnew
          subst hoid
          exact hvalid.wellFormed hentries (Assoc.mem_bindings.mp hbind)
        | some childEntries =>
          rw [hchild] at hnew
          by_cases hkeys : childEntries.keys = []
          · simp [hkeys] at hnew
          · have ht : e.writeSubtree fuel (pre ++ [n]) childEntries = t := by
              simpa [hkeys] using hnew
            rw [← ht]
            apply ih
            rw [← find_subtrees_eq_entriesAt e (by simp), hchild]

theorem write_wellFormed (hvalid : e.Valid) :
    e.write.WellFormed :=
  writeSubtree_wellFormed hvalid _ (by simp [entriesAt])

theorem find_of_keys_nil
    (h : entries.keys = []) (name : Name) : entries.find name = none := by
  cases hfind : entries.find name with
  | none => rfl
  | some entry =>
    have hmem : name ∈ entries.keys :=
      AList.mem_keys.mp (AList.lookup_isSome.mp (by
        change (entries.find name).isSome
        simp [hfind]))
    rw [h] at hmem
    cases hmem

theorem getFrom_of_keys_nil (subtrees : Path -> Option TreeEntries)
    (pre : Path) (h : entries.keys = []) (p : Path) :
    getFrom subtrees pre entries p = none := by
  cases p with
  | nil => rfl
  | cons name rest => rw [getFrom, find_of_keys_nil h]

/-- The blob that `writeSubtree` stores under one of its entries. -/
theorem blobAt_writeSubtree_cons (hvalid : e.Valid)
    {fuel : Nat}
    (hentries : e.entriesAt pre = some entries) (name : Name) (rest : Path) :
    (e.writeSubtree (fuel + 1) pre entries).blobAt (name :: rest) =
      match (entries.find name).bind (writeEntry e fuel pre name) with
      | none => none
      | some (.blob oid) => if rest = [] then some oid else none
      | some (.tree oid) => (oid.getD .nil).blobAt rest := by
  have hwf := writeSubtree_wellFormed hvalid (fuel + 1) hentries
  apply Option.ext
  intro oid
  rw [Tree.blobAt_cons_eq_some_iff hwf]
  constructor
  · intro h
    rcases h with ⟨hrest, hmem⟩ | ⟨sub, hmem, hsub⟩
    · rcases mem_entries_writeSubtree.mp hmem with
        ⟨old, new, hfind, hnew, hstored⟩
      rw [hfind, Option.bind_some, hnew]
      cases new with
      | blob oid' =>
        cases hstored
        simp [hrest]
      | tree oid' => cases hstored
    · rcases mem_entries_writeSubtree.mp hmem with
        ⟨old, new, hfind, hnew, hstored⟩
      rw [hfind, Option.bind_some, hnew]
      cases new with
      | blob oid' => cases hstored
      | tree oid' =>
        cases hstored
        exact hsub
  · intro h
    cases hfind : entries.find name with
    | none => simp [hfind] at h
    | some old =>
      rw [hfind, Option.bind_some] at h
      cases hnew : writeEntry e fuel pre name old with
      | none => simp [hnew] at h
      | some new =>
        rw [hnew] at h
        have hmem := mem_entries_writeSubtree.mpr ⟨old, new, hfind, hnew, rfl⟩
        cases new with
        | blob oid' =>
          by_cases hrest : rest = []
          · have hoid : oid' = oid := by simpa [hrest] using h
            subst hoid
            exact .inl ⟨hrest, hmem⟩
          · simp [hrest] at h
        | tree oid' => exact .inr ⟨_, hmem, h⟩

theorem blobAt_writeSubtree (hvalid : e.Valid)
    {fuel : Nat}
    (hentries : e.entriesAt pre = some entries)
    (hfuel : forall d, e.Loaded (pre ++ d) -> d.length < fuel) (p : Path) :
    (e.writeSubtree fuel pre entries).blobAt p =
      (getFrom e.subtrees.find pre entries p).bind Entry.blob? := by
  induction fuel generalizing pre entries p with
  | zero =>
    have := hfuel [] (by simp [Loaded, hentries])
    simp at this
  | succ fuel ih =>
    cases p with
    | nil => simp
    | cons name rest =>
      rw [blobAt_writeSubtree_cons hvalid hentries]
      cases hfind : entries.find name with
      | none => simp [getFrom, hfind]
      | some old =>
        rw [Option.bind_some]
        cases old with
        | blob oid =>
          by_cases hrest : rest = []
          · simp [hrest, writeEntry, hfind, Entry.blob?]
          · rw [getFrom_cons _ _ _ _ hrest, hfind]
            simp [hrest, writeEntry]
        | tree oid =>
          by_cases hrest : rest = []
          · subst hrest
            rw [getFrom_singleton, hfind]
            simp only [writeEntry]
            cases e.subtrees.find (pre ++ [name]) with
            | none => simp [Entry.blob?]
            | some child =>
              by_cases hkeys : child.keys = []
              · simp [hkeys, Entry.blob?]
              · simp [hkeys, Entry.blob?]
          · rw [getFrom_cons _ _ _ _ hrest, hfind]
            simp only [writeEntry, childEntries]
            cases hchild : e.subtrees.find (pre ++ [name]) with
            | none =>
              have hnone : forall d, d ≠ [] ->
                  e.subtrees.find (pre ++ [name] ++ d) = none := by
                intro d hd
                have hnot : ¬ e.Loaded (pre ++ [name] ++ d) := by
                  intro hload
                  have := hvalid.closed hload (below_iff_exists.mpr ⟨d, hd, rfl⟩)
                  rw [Loaded, ← find_subtrees_eq_entriesAt e
                    (by simp), hchild] at this
                  cases this
                simpa using (not_loaded_iff e (by simp)).mpr hnot
              simp only [Option.getD_none]
              rw [getFrom_loadTreeEntries hnone]
              rfl
            | some child =>
              simp only [Option.getD_some]
              by_cases hkeys : child.keys = []
              · simp [hkeys, getFrom_of_keys_nil _ _ hkeys]
              · rw [if_neg hkeys]
                apply ih
                · rw [← find_subtrees_eq_entriesAt e (by simp), hchild]
                · intro d hd
                  have := hfuel (name :: d) (by simpa using hd)
                  simpa using this

private theorem length_le_foldr_max {ps : List Path}
    (h : p ∈ ps) : p.length ≤ (ps.map length).foldr max 0 := by
  induction ps with
  | nil => cases h
  | cons q rest ih =>
    rw [map_cons, foldr_cons]
    rcases mem_cons.mp h with rfl | h
    · exact le_max_left _ _
    · exact le_trans (ih h) (le_max_right _ _)

theorem length_lt_depth (h : e.Loaded p) :
    p.length < e.depth := by
  unfold depth
  by_cases hp : p = []
  · subst hp
    simp
  · have hmem : p ∈ e.subtrees.keys := by
      rw [Loaded, ← find_subtrees_eq_entriesAt e hp] at h
      exact AList.mem_keys.mp (AList.lookup_isSome.mp h)
    exact Nat.lt_succ_of_le (length_le_foldr_max hmem)

theorem blobAt_write (hvalid : e.Valid) (p : Path) :
    e.write.blobAt p = e.blobAt p := by
  unfold write blobAt get?
  apply blobAt_writeSubtree hvalid
  · simp [entriesAt]
  · intro d hd
    exact length_lt_depth (by simpa using hd)

end TreeEditor
end Git
end OpenViking
