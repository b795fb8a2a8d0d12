import OpenViking.Memfs.TreeFormed

/-!
# Rename

Below the old path `rename` moves one entry after the other.  When neither path
is below the other no move disturbs a later one, in whatever order they come.
-/

namespace OpenViking
namespace Memfs

open Paths Assoc List

/-- The subtree at the old path is at the new path, and nothing else has
changed. -/
structure Moved (old new : Path) (entries entries' : Entries) : Prop where
  arrived : forall r, entries'.find (absolute (new ++ r)) =
    entries.find (absolute (old ++ r))
  left : forall r, ¬ new <+: old ++ r ->
    entries'.find (absolute (old ++ r)) = none
  other : forall path, (forall r, path ≠ absolute (old ++ r)) ->
    (forall r, path ≠ absolute (new ++ r)) ->
    entries'.find path = entries.find path

/-- Neither path is at or below the other. -/
def Apart (p q : Path) : Prop :=
  ¬ p <+: q ∧ ¬ q <+: p

theorem Apart.ne_append {p q : Path} (h : Apart p q) (r s : Path) :
    p ++ r ≠ q ++ s := by
  intro heq
  rcases prefix_or_prefix_of_prefix (prefix_append p r)
    (heq ▸ prefix_append q s) with hpre | hpre
  · exact h.1 hpre
  · exact h.2 hpre

/-!
# The children that are moved
-/

/-- The keys below the old path in the order of the map. -/
def childTexts (entries : Entries) (old : Path) : List Str :=
  (entries.bindings.map Prod.fst).filter fun path =>
    decide (path ≠ absolute old ∧ below old <+: path)

variable {entries : Entries}

theorem mem_keys {path : Str} :
    path ∈ entries.bindings.map Prod.fst <->
      (entries.find path).isSome = true := by
  rw [mem_map, Option.isSome_iff_exists]
  constructor
  · intro h
    rcases h with ⟨⟨k, e⟩, hmem, rfl⟩
    exact ⟨e, mem_bindings.mp hmem⟩
  · intro h
    rcases h with ⟨e, he⟩
    exact ⟨(path, e), mem_bindings.mpr he, rfl⟩

theorem mem_childTexts (h : Formed entries) {old : Path}
    {path : Str} :
    path ∈ childTexts entries old <->
      exists r, r ≠ [] ∧ path = absolute (old ++ r) ∧
        (get entries (old ++ r)).isSome = true := by
  rw [childTexts, mem_filter, mem_keys, decide_eq_true_iff]
  constructor
  · intro hmem
    rcases hmem with ⟨hsome, hbelow⟩
    rcases Option.isSome_iff_exists.mp hsome with ⟨e, he⟩
    rcases h.canonical path e he with ⟨q, rfl⟩
    rcases below_iff_exists.mp (below_prefix_absolute_iff.mp hbelow)
      with ⟨r, hr, rfl⟩
    exact ⟨r, hr, rfl, hsome⟩
  · intro hex
    rcases hex with ⟨r, hr, rfl, hsome⟩
    exact ⟨hsome, below_prefix_absolute_iff.mpr
      (below_iff_exists.mpr ⟨r, hr, rfl⟩)⟩

theorem collectMoves_eq {old oldPrefix newPrefix : Str}
    {paths : List Str}
    (h : forall path, path ∈ paths -> path ≠ old -> oldPrefix <+: path ->
      entries.find (newPrefix ++ path.drop oldPrefix.length) = none) :
    collectMoves entries old oldPrefix newPrefix paths =
      .ok (paths.filter fun path =>
        decide (path ≠ old ∧ oldPrefix <+: path)) := by
  induction paths with
  | nil => rfl
  | cons path rest ih =>
    have hrest := ih fun p hp => h p (mem_cons_of_mem _ hp)
    rw [collectMoves]
    by_cases hold : path = old
    · rw [if_pos hold, hrest, filter_cons_of_neg (by simp [hold])]
    · rw [if_neg hold]
      by_cases hpre : oldPrefix <+: path
      · have hnone := h path mem_cons_self hold hpre
        rw [if_pos hpre, filter_cons_of_pos (by simp [hold, hpre])]
        simp only [hnone, hrest]
        rfl
      · rw [if_neg hpre, hrest, filter_cons_of_neg (by simp [hpre])]

/-- The map after the moves of a rename whose checks pass. -/
def moveAll (entries : Entries) (old new : Path) (entry : FileEntry) :
    Entries :=
  (childTexts entries old).foldl (moveChild (below old) (below new))
    ((del entries (absolute old)).put (absolute new) entry)

variable {old new : Path}

theorem rename_eq (h : Formed entries)
    {entry : FileEntry} (hold : get entries old = some entry)
    (hnew : get entries new = none)
    (hcheck : checkParent entries (absolute new) = .ok ()) :
    rename (absolute old) (absolute new) entries =
      (.ok (), moveAll entries old new entry) := by
  have hcollect : collectMoves entries (absolute old) (below old) (below new)
      (entries.bindings.map Prod.fst) = .ok (childTexts entries old) := by
    apply collectMoves_eq
    intro path hmem hne hpre
    have hchild : path ∈ childTexts entries old := by
      rw [childTexts, mem_filter]
      exact ⟨hmem, decide_eq_true ⟨hne, hpre⟩⟩
    rcases (mem_childTexts h).mp hchild with ⟨r, hr, rfl, _⟩
    rw [child_moved old new hr]
    cases hget : entries.find (absolute (new ++ r)) with
    | none => rfl
    | some e =>
      have hsome := h.get_of_prefix (prefix_append new r)
        (by rw [get, hget]; rfl)
      rw [hnew] at hsome
      cases hsome
  rw [get] at hold hnew
  rw [rename]
  simp only [normalizePath_absolute, childPrefix_absolute, hold, hnew, hcheck,
    hcollect]
  rfl

/-!
# One move and all moves
-/

theorem find_moveChild_new (base : Entries) {s : Path}
    (hs : s ≠ []) (hapart : Apart old new) (r : Path) :
    get (moveChild (below old) (below new) base (absolute (old ++ s)))
        (new ++ r) =
      if r = s ∧ (get base (old ++ s)).isSome = true then
        get base (old ++ s)
      else get base (new ++ r) := by
  have hne : new ++ r ≠ old ++ s := fun heq => hapart.ne_append s r heq.symm
  rw [moveChild]
  cases hfind : base.find (absolute (old ++ s)) with
  | none => simp [get, hfind]
  | some e =>
    simp only [child_moved old new hs, get_put, get_del, if_neg hne]
    simp [get, hfind]

theorem find_moveChild_other (base : Entries) {s : Path}
    (hs : s ≠ []) {path : Str} (hpath : forall r, path ≠ absolute (new ++ r)) :
    (moveChild (below old) (below new) base (absolute (old ++ s))).find path =
      if path = absolute (old ++ s) then none else base.find path := by
  rw [moveChild]
  cases hfind : base.find (absolute (old ++ s)) with
  | none =>
    by_cases heq : path = absolute (old ++ s)
    · rw [if_pos heq, heq]
      exact hfind
    · rw [if_neg heq]
  | some e =>
    simp only [child_moved old new hs]
    rw [find_put_ne _ _ (hpath s), find_del]

theorem foldl_moveChild (hapart : Apart old new)
    {texts : List Str}
    (htexts : forall path, path ∈ texts ->
      exists r, r ≠ [] ∧ path = absolute (old ++ r)) (base : Entries) :
    (forall r, get (texts.foldl (moveChild (below old) (below new)) base)
        (new ++ r) =
      if absolute (old ++ r) ∈ texts ∧
          (get base (old ++ r)).isSome = true then
        get base (old ++ r)
      else get base (new ++ r)) ∧
    forall path, (forall r, path ≠ absolute (new ++ r)) ->
      (texts.foldl (moveChild (below old) (below new)) base).find path =
        if path ∈ texts then none else base.find path := by
  induction texts generalizing base with
  | nil => simp
  | cons text rest ih =>
    rcases htexts text mem_cons_self with ⟨s, hs, rfl⟩
    have hrest := ih (fun path hpath =>
      htexts path (mem_cons_of_mem _ hpath))
      (moveChild (below old) (below new) base (absolute (old ++ s)))
    have hotherOld : forall r,
        get (moveChild (below old) (below new) base (absolute (old ++ s)))
          (old ++ r) = if r = s then none else get base (old ++ r) := by
      intro r
      have hpath : forall t, absolute (old ++ r) ≠ absolute (new ++ t) := by
        intro t heq
        exact hapart.ne_append r t (absolute_injective heq)
      rw [get, find_moveChild_other base hs hpath]
      simp only [absolute_inj, append_cancel_left_eq]
      rfl
    constructor
    · intro r
      rw [foldl_cons, hrest.1 r, hotherOld,
        find_moveChild_new base hs hapart]
      simp only [mem_cons, absolute_inj, append_cancel_left_eq]
      by_cases hr : r = s
      · simp [hr]
      · simp [hr]
    · intro path hpath
      rw [foldl_cons, hrest.2 path hpath, find_moveChild_other base hs hpath]
      by_cases hmem : path ∈ rest
      · simp [hmem]
      · simp [hmem]

section Apart

variable {entries : Entries} {old new : Path} {entry : FileEntry}

section

variable (h : Formed entries) (hold : get entries old = some entry)
    (hnew : get entries new = none)

include h hold hnew

theorem apart_of_free (hbelow : ¬ Below old new) : Apart old new := by
  constructor
  · intro hpre
    rcases prefix_iff_eq_or_below.mp hpre with heq | hlt
    · rw [heq, hnew] at hold
      cases hold
    · exact hbelow hlt
  · intro hpre
    have hsome := h.get_of_prefix hpre (by rw [hold]; rfl)
    rw [hnew] at hsome
    cases hsome

theorem moved_moveAll (hapart : Apart old new) :
    Moved old new entries (moveAll entries old new entry) := by
  have htexts : forall path, path ∈ childTexts entries old ->
      exists r, r ≠ [] ∧ path = absolute (old ++ r) := by
    intro path hmem
    rcases (mem_childTexts h).mp hmem with ⟨r, hr, hpath, _⟩
    exact ⟨r, hr, hpath⟩
  rcases foldl_moveChild hapart htexts
    ((del entries (absolute old)).put (absolute new) entry)
    with ⟨hnews, hothers⟩
  have hchild : forall r, absolute (old ++ r) ∈ childTexts entries old <->
      (r ≠ [] ∧ (get entries (old ++ r)).isSome = true) := by
    intro r
    rw [mem_childTexts h]
    constructor
    · intro hex
      rcases hex with ⟨s, hs, heq, hsome⟩
      rw [absolute_inj, append_cancel_left_eq] at heq
      exact ⟨heq ▸ hs, heq ▸ hsome⟩
    · intro hr
      exact ⟨r, hr.1, rfl, hr.2⟩
  have hnone : forall r, get entries (new ++ r) = none := by
    intro r
    cases hget : get entries (new ++ r) with
    | none => rfl
    | some e =>
      have hsome := h.get_of_prefix (prefix_append new r) (by rw [hget]; rfl)
      rw [hnew] at hsome
      cases hsome
  have hbase : forall r, get
      ((del entries (absolute old)).put (absolute new) entry)
        (old ++ r) = if r = [] then none else get entries (old ++ r) := by
    intro r
    have hne : old ++ r ≠ new := by
      intro heq
      exact hapart.1 ⟨r, heq⟩
    rw [get_put, if_neg hne, get_del]
    simp
  constructor
  · intro r
    have hget := hnews r
    simp only [hbase, hchild] at hget
    rw [get] at hget
    show (moveAll entries old new entry).find _ = get entries (old ++ r)
    rw [moveAll, hget]
    by_cases hr : r = []
    · simp [hr, get_put, hold]
    · have hne : new ++ r ≠ new := by simpa using hr
      cases hsome : get entries (old ++ r) with
      | none =>
        rw [get_put, if_neg hne, get_del]
        simp [hr, hnone]
      | some e => simp [hr]
  · intro r hout
    have hpath : forall s, absolute (old ++ r) ≠ absolute (new ++ s) := by
      intro s heq
      exact hapart.ne_append r s (absolute_injective heq)
    rw [moveAll, hothers _ hpath]
    split
    · rfl
    rename_i hmem
    rw [hchild] at hmem
    have hget := hbase r
    rw [get] at hget
    rw [hget]
    split
    · rfl
    · rename_i hr
      cases hsome : get entries (old ++ r) with
      | none => rfl
      | some e => exact absurd ⟨hr, by rw [hsome]; rfl⟩ hmem
  · intro path holds hnews'
    rw [moveAll, hothers path hnews', if_neg]
    · have hold' := holds []
      have hnew' := hnews' []
      rw [append_nil] at hold' hnew'
      rw [find_put_ne _ _ hnew', find_del_ne _ hold']
    · intro hmem
      rcases htexts path hmem with ⟨r, _, hpath⟩
      exact holds r hpath

end

variable {entries' : Entries}

section

variable (h : Moved old new entries entries') {q : Path} (hold : ¬ old <+: q)
    (hnew : ¬ new <+: q)

include h hold hnew

theorem Moved.get_other : get entries' q = get entries q := by
  apply h.other
  · intro r heq
    exact hold ⟨r, (absolute_injective heq).symm⟩
  · intro r heq
    exact hnew ⟨r, (absolute_injective heq).symm⟩

theorem Moved.isDir_other (hdir : IsDir entries q) : IsDir entries' q := by
  rcases hdir with ⟨d, hd, hisDir⟩
  exact ⟨d, by rw [h.get_other hold hnew, hd], hisDir⟩

end

/-- A subtree that is moved aside leaves a well-formed map. -/
theorem Formed.moved (h : Formed entries)
    (hmoved : Moved old new entries entries') (hapart : Apart old new)
    (hcheck : checkParent entries (absolute new) = .ok ()) :
    Formed entries' := by
  constructor
  · intro path e hfind
    by_cases hcanonical : exists p, path = absolute p
    · exact hcanonical
    · rw [hmoved.other path (fun r heq => hcanonical ⟨_, heq⟩)
        (fun r heq => hcanonical ⟨_, heq⟩)] at hfind
      exact h.canonical path e hfind
  · apply hmoved.isDir_other ?_ ?_ h.root
    · intro hpre
      rw [prefix_nil.mp hpre] at hapart
      exact hapart.1 nil_prefix
    · intro hpre
      rw [prefix_nil.mp hpre] at hapart
      exact hapart.2 nil_prefix
  · intro q n e hget
    by_cases hnew : new <+: q ++ [n]
    · rcases prefix_concat_iff.mp hnew with heq | hpre
      · have hold : ¬ old <+: q := by
          intro hpre
          exact hapart.1 (heq ▸ hpre.trans (prefix_append q [n]))
        have hout : ¬ new <+: q := by
          intro hpre
          have hlen := hpre.length_le
          have hsize := congrArg length heq
          simp at hsize
          omega
        apply hmoved.isDir_other hold hout
        rcases (checkParent_absolute entries new).mp hcheck with hnil | hdir
        · rw [hnil] at heq
          simp at heq
        · rw [heq, dropLast_concat] at hdir
          exact hdir
      · rcases hpre with ⟨r, rfl⟩
        have harrived := hmoved.arrived (r ++ [n])
        rw [← append_assoc, ← append_assoc] at harrived
        rw [get, harrived] at hget
        rcases h.parent _ n e hget with ⟨d, hd, hisDir⟩
        exact ⟨d, by rw [get, hmoved.arrived]; exact hd, hisDir⟩
    · have hold : ¬ old <+: q ++ [n] := by
        intro hpre
        rcases hpre with ⟨r, hr⟩
        have hleft := hmoved.left r (by rw [hr]; exact hnew)
        rw [hr] at hleft
        rw [get, hleft] at hget
        cases hget
      rw [hmoved.get_other hold hnew] at hget
      apply hmoved.isDir_other ?_ ?_ (h.parent q n e hget)
      · intro hpre
        exact hold (hpre.trans (prefix_append q [n]))
      · intro hpre
        exact hnew (hpre.trans (prefix_append q [n]))

end Apart

theorem moveAll_canonical (h : Formed entries)
    (old new : Path) (entry : FileEntry) :
    forall path e, (moveAll entries old new entry).find path = some e ->
      exists p, path = absolute p := by
  have hstep : forall (texts : List Str) (base : Entries),
      (forall path, path ∈ texts ->
        exists r, r ≠ [] ∧ path = absolute (old ++ r)) ->
      (forall path e, base.find path = some e -> exists p, path = absolute p) ->
      forall path e,
        (texts.foldl (moveChild (below old) (below new)) base).find path =
          some e -> exists p, path = absolute p := by
    intro texts
    induction texts with
    | nil => exact fun _ _ hbase => hbase
    | cons path rest ih =>
      intro base hall hbase
      apply ih _ fun p hp => hall p (mem_cons_of_mem _ hp)
      rcases hall path mem_cons_self with ⟨r, hr, rfl⟩
      rw [moveChild]
      cases hfind : base.find (absolute (old ++ r)) with
      | none => exact hbase
      | some e =>
        simp only [child_moved old new hr]
        exact canonical_put (canonical_del hbase _) _ e
  apply hstep
  · intro path hmem
    rcases (mem_childTexts h).mp hmem with ⟨r, hr, hpath, _⟩
    exact ⟨r, hr, hpath⟩
  · exact canonical_put (canonical_del h.canonical _) new entry

/-- A directory that is moved below itself is no longer there. -/
theorem moveAll_below (h : Formed entries) (entry : FileEntry)
    (hnew : get entries new = none)
    (hbelow : Below old new) :
    get (moveAll entries old new entry) new ≠ none ∧
      get (moveAll entries old new entry) old = none := by
  have htexts : forall path, path ∈ childTexts entries old ->
      exists r, r ≠ [] ∧ path = absolute (old ++ r) ∧ old ++ r ≠ new := by
    intro path hmem
    rcases (mem_childTexts h).mp hmem with ⟨r, hr, hpath, hsome⟩
    refine ⟨r, hr, hpath, ?_⟩
    intro heq
    rw [heq, hnew] at hsome
    cases hsome
  have hstep : forall (texts : List Str) (base : Entries),
      (forall path, path ∈ texts -> exists r, r ≠ [] ∧
        path = absolute (old ++ r) ∧ old ++ r ≠ new) ->
      get base new ≠ none ∧ get base old = none ->
      get (texts.foldl (moveChild (below old) (below new)) base) new ≠ none ∧
        get (texts.foldl (moveChild (below old) (below new)) base) old =
          none := by
    intro texts
    induction texts with
    | nil => exact fun _ _ hbase => hbase
    | cons path rest ih =>
      intro base hall hbase
      apply ih _ fun p hp => hall p (mem_cons_of_mem _ hp)
      rcases hall path mem_cons_self with ⟨r, hr, rfl, hne⟩
      rw [moveChild]
      cases hfind : base.find (absolute (old ++ r)) with
      | none => exact hbase
      | some e =>
        have hnewr : new ≠ new ++ r := by simpa using Ne.symm hr
        have holdr : old ≠ old ++ r := by simpa using Ne.symm hr
        have holdnew : old ≠ new ++ r := by
          intro heq
          have hlen := hbelow.length_lt
          rw [heq, length_append] at hlen
          omega
        simp only [child_moved old new hr, get_put, get_del, if_neg hnewr,
          if_neg holdr, if_neg holdnew, if_neg hne.symm]
        exact hbase
  apply hstep _ _ htexts
  rw [get_put, get_put, if_pos rfl, if_neg hbelow.ne, get_del, if_pos rfl]
  exact ⟨Option.some_ne_none entry, rfl⟩

end Memfs
end OpenViking
