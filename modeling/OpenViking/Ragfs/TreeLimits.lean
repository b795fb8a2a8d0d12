import OpenViking.Ragfs.TreeDirectory

/-!
# Limits of a traversal

Every entry of a traversal stands where the names on the way to it lead.  The
level limit therefore leaves out the deeper entries, and the node limit leaves
out the later ones.
-/

namespace OpenViking
namespace Ragfs

open Paths List
open Segments
open Emitted

def Stands (base : Str) (names : List Str) (a : TreeEntry) : Prop :=
  names ≠ [] ∧ (forall n, n ∈ names -> IsName n) ∧
    a.path = located base names ∧ a.relPath = relative names

/-- The entry is at most as deep as the limit. -/
def withinLevel (limit : Nat) (a : TreeEntry) : Bool :=
  decide (relativeDepth a.relPath ≤ limit)

variable {names : List Str}

theorem Stands.depth {base : Str} {a : TreeEntry}
    (h : Stands base names a) : relativeDepth a.relPath = names.length := by
  rw [h.2.2.2, relativeDepth_relative h.2.1]

theorem forall_isName_append {names more : List Str}
    (h : forall n, n ∈ names -> IsName n)
    (hmore : forall n, n ∈ more -> IsName n) :
    forall n, n ∈ names ++ more -> IsName n := by
  intro n hn
  rcases mem_append.mp hn with hfirst | hlast
  · exact h n hfirst
  · exact hmore n hlast

theorem forall_isName_concat {name : Str}
    (h : forall n, n ∈ names -> IsName n) (hname : IsName name) :
    forall n, n ∈ names ++ [name] -> IsName n :=
  forall_isName_append h fun _ hn => (mem_singleton.mp hn) ▸ hname

theorem forall_isName_nil : forall n, n ∈ ([] : List Str) -> IsName n :=
  nofun

def StandBelow {ε : Type} (base : Str) (names : List Str)
    (x : Emitted ε TreeEntry) : Prop :=
  forall a, a ∈ x.items ->
    exists (name : Str) (more : List Str),
      Stands base (names ++ name :: more) a

section Places

variable {ε : Type} {base : Str} (hbase : normalizePrefixPath base = base)
  {showHidden : Bool}

include hbase

variable {entry : FileInfo}

theorem treeEntry_stands
    (hnames : forall n, n ∈ names -> IsName n)
    (hentry : IsName entry.name) :
    Stands base (names ++ [entry.name])
      (treeEntry base (located base names) entry) := by
  have hall := forall_isName_concat hnames hentry
  have hpath := located_concat base names entry.name
  refine ⟨by simp, hall, hpath.symm, ?_⟩
  show relativeMatchFile base (entryPath (located base names) entry.name) = _
  rw [← hpath, relativeMatchFile_located hbase hall]

variable {below : Str -> Emitted ε TreeEntry}

theorem walkEntry_stands (hnames : forall n, n ∈ names -> IsName n)
    (hentry : IsName entry.name)
    (hbelow : StandBelow base (names ++ [entry.name])
      (below (located base (names ++ [entry.name]))))
    {a : TreeEntry}
    (h : a ∈ (walkEntry showHidden base below (located base names)
      entry).items) :
    exists more : List Str, Stands base (names ++ entry.name :: more) a := by
  rw [walkEntry] at h
  split at h
  · rcases mem_items_andThen h with hself | hdeep
    · cases mem_singleton.mp hself
      exact ⟨[], treeEntry_stands hbase hnames hentry⟩
    · split at hdeep
      · rw [← located_concat] at hdeep
        rcases hbelow a hdeep with ⟨name, more, hstands⟩
        rw [append_assoc] at hstands
        exact ⟨name :: more, hstands⟩
      · cases hdeep
  · cases h

variable {tree : Tree ε} {order : List FileInfo -> List FileInfo}
  (horder : forall xs : List FileInfo, (order xs).Perm xs)
  {levelLimit : Option Nat}

include horder

theorem walk_stands (fuel : Nat)
    (hnames : forall n, n ∈ names -> IsName n) :
    StandBelow base names
      (walk tree order showHidden levelLimit base fuel
        (located base names)) := by
  intro a h
  induction fuel generalizing names a with
  | zero => cases h
  | succ fuel ih =>
    rw [walk] at h
    split at h
    · cases h
    cases hread : tree.readDir (located base names) with
    | error e =>
      rw [hread] at h
      cases h
    | ok entries =>
      rw [hread] at h
      rcases mem_items_each h with ⟨entry, hentry, ha⟩
      have hname := tree.names _ entries hread entry
        ((horder entries).mem_iff.mp hentry)
      have hstands := walkEntry_stands hbase hnames hname
        (ih (forall_isName_concat hnames hname)) ha
      rcases hstands with ⟨more, hstands⟩
      exact ⟨entry.name, more, hstands⟩

/-!
# Each entry once
-/

omit horder in
theorem walkEntry_pairwise (hnames : forall n, n ∈ names -> IsName n)
    (hentry : IsName entry.name)
    (hbelow : StandBelow base (names ++ [entry.name])
      (below (located base (names ++ [entry.name]))))
    (hpairs : (below (located base (names ++ [entry.name]))).items.Pairwise
      fun a b => a.relPath ≠ b.relPath) :
    (walkEntry showHidden base below (located base names)
      entry).items.Pairwise fun a b => a.relPath ≠ b.relPath := by
  rw [walkEntry]
  split
  · apply pairwise_andThen (pairwise_singleton _ _)
    · split
      · rw [← located_concat]
        exact hpairs
      · exact List.Pairwise.nil
    intro a ha b hb heq
    cases mem_singleton.mp ha
    split at hb
    · rw [← located_concat] at hb
      have hself := treeEntry_stands hbase hnames hentry
      rcases hbelow b hb with ⟨name, more, hdeep⟩
      have hsame := hself.depth.symm.trans
        ((congrArg relativeDepth heq).trans hdeep.depth)
      simp only [length_append, length_cons, length_nil] at hsame
      omega
    · cases hb
  · exact List.Pairwise.nil

/-- What different entries bring stands at different places. -/
theorem walk_pairwise (fuel : Nat)
    (hnames : forall n, n ∈ names -> IsName n) :
    (walk tree order showHidden levelLimit base fuel
      (located base names)).items.Pairwise fun a b => a.relPath ≠ b.relPath := by
  induction fuel generalizing names with
  | zero => exact List.Pairwise.nil
  | succ fuel ih =>
    rw [walk]
    split
    · exact List.Pairwise.nil
    cases hread : tree.readDir (located base names) with
    | error e => exact List.Pairwise.nil
    | ok entries =>
      have hname : forall entry, entry ∈ order entries ->
          IsName entry.name := fun entry hentry =>
        tree.names _ entries hread entry ((horder entries).mem_iff.mp hentry)
      have hbelow : forall entry, entry ∈ order entries ->
          StandBelow base (names ++ [entry.name])
            (walk tree order showHidden levelLimit base fuel
              (located base (names ++ [entry.name]))) :=
        fun entry hentry => walk_stands hbase horder fuel
          (forall_isName_concat hnames (hname entry hentry))
      apply pairwise_each
      · intro entry hentry
        exact walkEntry_pairwise hbase hnames (hname entry hentry)
          (hbelow entry hentry)
          (ih (forall_isName_concat hnames (hname entry hentry)))
      have hnodup : ((order entries).map FileInfo.name).Nodup :=
        ((horder entries).map _).nodup_iff.mpr (tree.distinct _ entries hread)
      refine (pairwise_map.mp hnodup).imp_of_mem ?_
      intro entry other hentry hother hne a ha b hb heq
      rcases walkEntry_stands hbase hnames (hname entry hentry)
        (hbelow entry hentry) ha with ⟨more, hfirst⟩
      rcases walkEntry_stands hbase hnames (hname other hother)
        (hbelow other hother) hb with ⟨more', hlast⟩
      have hsame := relative_injective hfirst.2.1 hlast.2.1 hfirst.1
        hlast.1 (hfirst.2.2.2.symm.trans (heq.trans hlast.2.2.2))
      exact hne (cons.inj (append_cancel_left hsame)).1

/-!
# The level limit
-/

omit horder in
theorem walkEntry_level {limit : Nat} {below' : Str -> Emitted ε TreeEntry}
    (hnames : forall n, n ∈ names -> IsName n) (hentry : IsName entry.name)
    (hopen : names.length < limit)
    (hbelow : forall ys : List TreeEntry,
      below (located base (names ++ [entry.name])) = ⟨ys, none⟩ ->
      below' (located base (names ++ [entry.name])) =
        ⟨ys.filter (withinLevel limit), none⟩)
    {ys : List TreeEntry}
    (h : walkEntry showHidden base below (located base names) entry =
      ⟨ys, none⟩) :
    walkEntry showHidden base below' (located base names) entry =
      ⟨ys.filter (withinLevel limit), none⟩ := by
  rw [walkEntry] at h ⊢
  split at h
  · rename_i hshown
    rcases andThen_eq_ok h with ⟨first, deep, hone, hdeep, heq⟩
    have hkept : withinLevel limit
        (treeEntry base (located base names) entry) = true := by
      rw [withinLevel, (treeEntry_stands hbase hnames hentry).depth,
        length_append]
      exact decide_eq_true hopen
    have hfirst : first.filter (withinLevel limit) =
        [treeEntry base (located base names) entry] := by
      cases hone
      exact filter_cons_of_pos hkept
    rw [if_pos hshown, heq, filter_append, hfirst]
    split at hdeep
    · rename_i hdir
      rw [← located_concat] at hdeep ⊢
      rw [if_pos hdir, hbelow deep hdeep]
      rfl
    · rename_i hdir
      cases hdeep
      rw [if_neg hdir]
      rfl
  · rename_i hshown
    cases h
    rw [if_neg hshown]
    rfl

omit hbase horder in
theorem filter_withinLevel_nil {limit : Nat}
    {x : Emitted ε TreeEntry} (h : StandBelow base names x)
    (hclosed : limit ≤ names.length) :
    x.items.filter (withinLevel limit) = [] := by
  rw [filter_eq_nil_iff]
  intro a ha hkept
  rcases h a ha with ⟨name, more, hstands⟩
  have hdeep := of_decide_eq_true hkept
  rw [hstands.depth, length_append, length_cons] at hdeep
  omega

variable {xs : List TreeEntry}

/-- The entries at most as deep as the limit are the ones that stay. -/
theorem walk_level (limit : Nat) (fuel : Nat)
    (hnames : forall n, n ∈ names -> IsName n)
    (h : walk tree order showHidden none base fuel (located base names) =
      ⟨xs, none⟩) :
    walk tree order showHidden (some limit) base fuel (located base names) =
      ⟨xs.filter (withinLevel limit), none⟩ := by
  induction fuel generalizing names xs with
  | zero =>
    cases h
    rfl
  | succ fuel ih =>
    have hdepth : relativeDepth (relativeMatchFile base (located base names)) =
        names.length := by
      rw [relativeMatchFile_located hbase hnames, relativeDepth_relative hnames]
    by_cases hclosed : limit ≤ names.length
    · have hstop : reached (some limit) names.length = true :=
        decide_eq_true hclosed
      have hbelow : StandBelow base names (⟨xs, none⟩ : Emitted ε TreeEntry) := by
        rw [← h]
        exact walk_stands hbase horder (fuel + 1) hnames
      have hnone := filter_withinLevel_nil hbelow hclosed
      rw [walk, hdepth, if_pos hstop, hnone]
      rfl
    · have hopen : reached (some limit) names.length = false :=
        decide_eq_false hclosed
      rw [walk, hdepth, if_neg (by rw [hopen]; exact Bool.false_ne_true)]
      rw [walk, hdepth, if_neg (by exact Bool.false_ne_true)] at h
      cases hread : tree.readDir (located base names) with
      | error e =>
        rw [hread] at h
        cases h
      | ok entries =>
        rw [hread] at h
        apply each_filter h
        intro entry hentry ys hys
        have hname := tree.names _ entries hread entry
          ((horder entries).mem_iff.mp hentry)
        exact walkEntry_level hbase hnames hname (Nat.not_le.mp hclosed)
          (fun zs hzs => ih (forall_isName_concat hnames hname) hzs) hys

end Places

/-!
# The traversal with limits
-/

section Limited

variable {ε : Type} (tree : Tree ε) (toLower : Str -> Str) (path : Str)
  (showHidden : Bool)

/-- What the traversal of a path meets. -/
def treeWalk (levelLimit : Option Nat) : Emitted ε TreeEntry :=
  let base := normalizePrefixPath path
  walk tree (sortDirectoryEntries toLower) showHidden levelLimit base
    (tree.height base + 1) base

theorem treeDirectory_eq_collect (nodeLimit levelLimit : Option Nat) :
    treeDirectory tree toLower path showHidden nodeLimit levelLimit =
      collect nodeLimit []
        (treeWalk tree toLower path showHidden levelLimit) :=
  treeDirectoryInternal_eq_collect showHidden nodeLimit _ tree toLower
    levelLimit _ _ []

theorem treeDirectory_eq_ok_iff {levelLimit : Option Nat} :
    treeDirectory tree toLower path showHidden none levelLimit =
        .ok xs <->
      treeWalk tree toLower path showHidden levelLimit = ⟨xs, none⟩ := by
  rw [treeDirectory_eq_collect, collect_none, toExcept_eq_ok_iff]

theorem treeDirectory_take {levelLimit : Option Nat}
    (h : treeDirectory tree toLower path showHidden none levelLimit =
      .ok xs) (n : Nat) :
    treeDirectory tree toLower path showHidden (some n) levelLimit =
      .ok (xs.take n) := by
  rw [treeDirectory_eq_collect,
    (treeDirectory_eq_ok_iff tree toLower path showHidden).mp h, collect_some]

theorem treeDirectory_level
    (h : treeDirectory tree toLower path showHidden none none =
      .ok xs) (d : Nat) :
    treeDirectory tree toLower path showHidden none (some d) =
      .ok (xs.filter (withinLevel d)) := by
  rw [treeDirectory_eq_ok_iff] at h ⊢
  exact walk_level (normalizePrefixPath_idem path)
    (sortDirectoryEntries_perm toLower) d _ forall_isName_nil h

theorem treeWalk_pairwise (levelLimit : Option Nat) :
    (treeWalk tree toLower path showHidden levelLimit).items.Pairwise
      fun a b => a.relPath ≠ b.relPath :=
  walk_pairwise (normalizePrefixPath_idem path)
    (sortDirectoryEntries_perm toLower) _ forall_isName_nil

theorem treeWalk_stands (levelLimit : Option Nat) :
    StandBelow (normalizePrefixPath path) []
      (treeWalk tree toLower path showHidden levelLimit) :=
  walk_stands (normalizePrefixPath_idem path)
    (sortDirectoryEntries_perm toLower) _ forall_isName_nil

end Limited
end Ragfs
end OpenViking
