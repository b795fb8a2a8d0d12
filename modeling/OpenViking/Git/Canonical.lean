import OpenViking.Git.EditorWrite

/-!
# Canonical trees

A tree whose directories are sorted and hold at least one entry each is
determined by its map of files.
-/

namespace OpenViking
namespace Git

open Paths List

namespace Tree

/-- Every directory of the tree lists its entries in the order of Git. -/
def Ordered : Tree -> Prop
  | nil => True
  | blob name oid rest =>
    (forall b, b ∈ rest.entries -> TreeEditor.EntryLe (name, .blob oid) b) ∧
      Ordered rest
  | dir name sub rest =>
    (forall b, b ∈ rest.entries ->
      TreeEditor.EntryLe (name, .tree (some sub)) b) ∧
      Ordered sub ∧ Ordered rest

/-- No directory of the tree, other than the root, is empty. -/
def Pruned : Tree -> Prop
  | nil => True
  | blob _ _ rest => Pruned rest
  | dir _ sub rest => sub ≠ nil ∧ Pruned sub ∧ Pruned rest

structure Canonical (t : Tree) : Prop where
  wellFormed : t.WellFormed
  ordered : t.Ordered
  pruned : t.Pruned

theorem Ordered.pairwise {t : Tree} (h : t.Ordered) :
    t.entries.Pairwise TreeEditor.EntryLe := by
  induction t with
  | nil => exact List.Pairwise.nil
  | blob name oid rest ih => exact List.Pairwise.cons h.1 (ih h.2)
  | dir name sub rest _ ih => exact List.Pairwise.cons h.1 (ih h.2.2)

theorem Ordered.sub {t sub : Tree} (h : t.Ordered) {name : Name}
    (hmem : (name, .tree (some sub)) ∈ t.entries) : sub.Ordered := by
  induction t with
  | nil => cases hmem
  | blob name' oid rest ih =>
    rcases mem_cons.mp hmem with heq | hmem
    · cases heq
    · exact ih h.2 hmem
  | dir name' sub' rest _ ih =>
    rcases mem_cons.mp hmem with heq | hmem
    · cases heq
      exact h.2.1
    · exact ih h.2.2 hmem

theorem Pruned.sub {t sub : Tree} (h : t.Pruned) {name : Name}
    (hmem : (name, .tree (some sub)) ∈ t.entries) : sub ≠ nil ∧ sub.Pruned := by
  induction t with
  | nil => cases hmem
  | blob name' oid rest ih =>
    rcases mem_cons.mp hmem with heq | hmem
    · cases heq
    · exact ih h hmem
  | dir name' sub' rest _ ih =>
    rcases mem_cons.mp hmem with heq | hmem
    · cases heq
      exact ⟨h.1, h.2.1⟩
    · exact ih h.2.2 hmem

theorem Canonical.sub {t sub : Tree} (h : t.Canonical) {name : Name}
    (hmem : (name, .tree (some sub)) ∈ t.entries) :
    sub ≠ nil ∧ sub.Canonical :=
  ⟨(h.pruned.sub hmem).1,
    ⟨h.wellFormed.sub hmem, h.ordered.sub hmem, (h.pruned.sub hmem).2⟩⟩

theorem exists_blobAt {t : Tree} (hwf : t.WellFormed) (h : t.Pruned) (hne : t ≠ nil) :
    exists p oid, t.blobAt p = some oid := by
  induction t with
  | nil => exact absurd rfl hne
  | blob name oid rest _ =>
    exact ⟨[name], oid, (blobAt_cons_eq_some_iff hwf).mpr
      (Or.inl ⟨rfl, mem_cons_self⟩)⟩
  | dir name sub rest ih _ =>
    rcases ih hwf.2.1 h.2.1 h.1 with ⟨p, oid, hp⟩
    exact ⟨name :: p, oid, (blobAt_cons_eq_some_iff hwf).mpr
      (Or.inr ⟨sub, mem_cons_self, hp⟩)⟩

theorem sizeOf_sub_lt {t sub : Tree} {name : Name}
    (hmem : (name, .tree (some sub)) ∈ t.entries) : sizeOf sub < sizeOf t := by
  induction t with
  | nil => cases hmem
  | blob name' oid rest ih =>
    rcases mem_cons.mp hmem with heq | hmem
    · cases heq
    · have := ih hmem
      simp only [blob.sizeOf_spec]
      omega
  | dir name' sub' rest _ ih =>
    rcases mem_cons.mp hmem with heq | hmem
    · cases heq
      simp only [dir.sizeOf_spec]
      omega
    · have := ih hmem
      simp only [dir.sizeOf_spec]
      omega

theorem sortKey_injective {a b : Name × Entry}
    (h : TreeEditor.sortKey a = TreeEditor.sortKey b) : a.1 = b.1 := by
  have hslash : forall (n m : Name), n.chars ++ ['/'] ≠ m.chars := by
    intro n m heq
    exact m.noSlash (heq ▸ mem_append_right _ mem_cons_self)
  unfold TreeEditor.sortKey at h
  split at h
  · split at h
    · exact Name.ext (append_cancel_right h)
    · exact absurd h (hslash _ _)
  · split at h
    · exact absurd h.symm (hslash _ _)
    · exact Name.ext h

theorem entries_injective {t u : Tree} (h : t.entries = u.entries) : t = u := by
  induction t generalizing u with
  | nil =>
    cases u with
    | nil => rfl
    | blob name oid rest => cases h
    | dir name sub rest => cases h
  | blob name oid rest ih =>
    cases u with
    | nil => cases h
    | blob name' oid' rest' =>
      rcases cons.inj h with ⟨hhead, htail⟩
      cases hhead
      rw [ih htail]
    | dir name' sub' rest' =>
      rcases cons.inj h with ⟨hhead, _⟩
      cases hhead
  | dir name sub rest _ ih =>
    cases u with
    | nil => cases h
    | blob name' oid' rest' =>
      rcases cons.inj h with ⟨hhead, _⟩
      cases hhead
    | dir name' sub' rest' =>
      rcases cons.inj h with ⟨hhead, htail⟩
      cases hhead
      rw [ih htail]

theorem entries_eq_of_mem_iff {t u : Tree} (ht : t.Canonical) (hu : u.Canonical)
    (h : forall b, b ∈ t.entries <-> b ∈ u.entries) : t.entries = u.entries := by
  have hperm : t.entries.Perm u.entries :=
    (perm_ext_iff_of_nodup ht.wellFormed.nodup_names.of_map
      hu.wellFormed.nodup_names.of_map).mpr h
  apply hperm.eq_of_pairwise _ ht.ordered.pairwise hu.ordered.pairwise
  intro a b ha hb hab hba
  have hname : a.1 = b.1 := sortKey_injective (le_antisymm hab hba)
  have hfa := (find_loadTreeEntries hu.wellFormed).mpr ((h a).mp ha)
  have hfb := (find_loadTreeEntries hu.wellFormed).mpr hb
  rw [hname, hfb] at hfa
  exact Prod.ext hname (Option.some.inj hfa).symm

theorem mem_entries_of_blobAt {t u : Tree} (ht : t.Canonical) (hu : u.Canonical)
    (h : forall p, t.blobAt p = u.blobAt p)
    (hsub : forall name sub sub', (name, .tree (some sub)) ∈ t.entries ->
      (name, .tree (some sub')) ∈ u.entries ->
      (forall p, sub.blobAt p = sub'.blobAt p) -> sub = sub')
    {b : Name × Entry} (hb : b ∈ t.entries) : b ∈ u.entries := by
  rcases b with ⟨name, entry⟩
  cases entry with
  | blob oid =>
    have hblob : u.blobAt [name] = some oid := by
      rw [← h]
      exact (blobAt_cons_eq_some_iff ht.wellFormed).mpr (Or.inl ⟨rfl, hb⟩)
    rcases (blobAt_cons_eq_some_iff hu.wellFormed).mp hblob with
      ⟨_, hmem⟩ | ⟨sub, _, hnil⟩
    · exact hmem
    · rw [blobAt_nil_path] at hnil
      cases hnil
  | tree oid =>
    cases oid with
    | none => exact absurd hb (tree_none_not_mem_entries t name)
    | some sub =>
      have hcanon := ht.sub hb
      rcases exists_blobAt hcanon.2.wellFormed hcanon.2.pruned hcanon.1 with
        ⟨p, oid, hp⟩
      have hblob : u.blobAt (name :: p) = some oid := by
        rw [← h]
        exact (blobAt_cons_eq_some_iff ht.wellFormed).mpr (Or.inr ⟨sub, hb, hp⟩)
      rcases (blobAt_cons_eq_some_iff hu.wellFormed).mp hblob with
        ⟨hnil, _⟩ | ⟨sub', hmem, _⟩
      · rw [hnil, blobAt_nil_path] at hp
        cases hp
      have hget : forall {v w : Tree}, v.WellFormed ->
          (name, .tree (some w)) ∈ v.entries ->
          forall q, v.blobAt ([name] ++ q) = w.blobAt q := by
        intro v w hv hw q
        apply blobAt_append
        rw [get?_singleton]
        exact (find_loadTreeEntries hv).mpr hw
      have heq : sub = sub' := by
        apply hsub name sub sub' hb hmem
        intro q
        rw [← hget ht.wellFormed hb q, h, hget hu.wellFormed hmem q]
      rw [heq]
      exact hmem

theorem Canonical.eq_of_blobAt {t u : Tree} (ht : t.Canonical) (hu : u.Canonical)
    (h : forall p, t.blobAt p = u.blobAt p) : t = u := by
  apply entries_injective
  apply entries_eq_of_mem_iff ht hu
  intro b
  constructor
  · apply mem_entries_of_blobAt ht hu h
    intro name sub sub' hmem hmem' hsame
    have := sizeOf_sub_lt hmem
    exact (ht.sub hmem).2.eq_of_blobAt (hu.sub hmem').2 hsame
  · apply mem_entries_of_blobAt hu ht (fun p => (h p).symm)
    intro name sub sub' hmem hmem' hsame
    have := sizeOf_sub_lt hmem'
    exact ((ht.sub hmem').2.eq_of_blobAt (hu.sub hmem).2
      (fun p => (hsame p).symm)).symm
termination_by sizeOf t

end Tree
end Git
end OpenViking
