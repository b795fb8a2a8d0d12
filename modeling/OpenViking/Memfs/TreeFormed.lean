import OpenViking.Memfs.MemFileSystem

/-!
# Well-formed maps

In a well-formed map the root is a directory and every entry stands in a
directory.  The keys are canonical as long as the calls are.
-/

namespace OpenViking
namespace Memfs

open Paths Assoc List

structure TreeFormed (entries : Entries) : Prop where
  root : exists e, entries.find ['/'] = some e ∧ e.isDir = true
  parent : forall path e parent, entries.find path = some e ->
    parentPath path = some parent ->
    exists d, entries.find parent = some d ∧ d.isDir = true

/-- The entry at a list of components. -/
def get (entries : Entries) (p : Path) : Option FileEntry :=
  entries.find (absolute p)

def IsDir (entries : Entries) (p : Path) : Prop :=
  exists d, get entries p = some d ∧ d.isDir = true

structure Formed (entries : Entries) : Prop where
  canonical : forall path e, entries.find path = some e ->
    exists p, path = absolute p
  root : IsDir entries []
  parent : forall p n e, get entries (p ++ [n]) = some e -> IsDir entries p

theorem Formed.treeFormed {entries : Entries} (h : Formed entries) :
    TreeFormed entries := by
  constructor
  · exact h.root
  intro path e parent hfind hparent
  rcases h.canonical path e hfind with ⟨p, hp⟩
  rw [hp, parentPath_absolute] at hparent
  split at hparent
  · cases hparent
  · rename_i hne
    cases hparent
    rcases eq_nil_or_concat' p with hnil | ⟨dirs, name, hconcat⟩
    · exact absurd hnil hne
    · rw [hconcat, dropLast_concat]
      rw [hp, hconcat] at hfind
      exact h.parent dirs name e hfind

theorem TreeFormed.formed {entries : Entries} (h : TreeFormed entries)
    (hcanonical : forall path e, entries.find path = some e ->
      exists p, path = absolute p) : Formed entries := by
  constructor
  · exact hcanonical
  · exact h.root
  · intro p n e hget
    apply h.parent _ e _ hget
    rw [parentPath_absolute, if_neg (by simp), dropLast_concat]

section Reading

variable {entries : Entries}

variable {e : FileEntry}

theorem Formed.isDir_of_below (h : Formed entries) {p q : Path}
    (hbelow : Below p q) (hget : get entries q = some e) :
    IsDir entries p := by
  rcases below_iff_exists.mp hbelow with ⟨r, hr, rfl⟩
  induction r using reverseRecOn generalizing e with
  | nil => exact absurd rfl hr
  | append_singleton r n ih =>
    rw [← append_assoc] at hget
    have hdir := h.parent _ n e hget
    by_cases hnil : r = []
    · rw [hnil, append_nil] at hdir
      exact hdir
    · rcases hdir with ⟨d, hd, _⟩
      exact ih hnil (below_iff_exists.mpr ⟨r, hnil, rfl⟩) hd

theorem Formed.get_of_prefix (h : Formed entries) {p q : Path}
    (hpre : p <+: q) (hget : (get entries q).isSome = true) :
    (get entries p).isSome = true := by
  rcases prefix_iff_eq_or_below.mp hpre with heq | hbelow
  · rw [heq]
    exact hget
  · rcases Option.isSome_iff_exists.mp hget with ⟨e, he⟩
    rcases h.isDir_of_below hbelow he with ⟨d, hd, _⟩
    rw [hd]
    rfl

theorem checkParent_absolute (entries : Entries) (p : Path) :
    checkParent entries (absolute p) = Except.ok () <->
      (p = [] ∨ IsDir entries p.dropLast) := by
  rw [checkParent, parentPath_absolute]
  by_cases hp : p = []
  · simp [hp]
  · simp only [hp, false_or, IsDir, get, if_false]
    cases hfind : entries.find (absolute p.dropLast) with
    | none => simp
    | some d =>
      cases hd : d.isDir with
      | false => simp [hd]
      | true => simp [hd]

end Reading

/-!
# Changes of one entry
-/

section Changes

variable {entries : Entries}

theorem get_put (p : Path) (e : FileEntry) (q : Path) :
    get (entries.put (absolute p) e) q =
      if q = p then some e else get entries q := by
  simp only [get, find_put, absolute_inj]

theorem get_del (p q : Path) :
    get (del entries (absolute p)) q =
      if q = p then none else get entries q := by
  simp only [get, find_del, absolute_inj]

theorem canonical_put
    (h : forall path e, entries.find path = some e -> exists p, path = absolute p)
    (p : Path) (e : FileEntry) :
    forall path e', (entries.put (absolute p) e).find path = some e' ->
      exists q, path = absolute q := by
  intro path e' hfind
  by_cases hpath : path = absolute p
  · exact ⟨p, hpath⟩
  · rw [find_put_ne _ _ hpath] at hfind
    exact h path e' hfind

theorem canonical_del
    (h : forall path e, entries.find path = some e -> exists p, path = absolute p)
    (key : Str) :
    forall path e', (del entries key).find path = some e' ->
      exists q, path = absolute q := by
  intro path e' hfind
  rw [find_del] at hfind
  split at hfind
  · cases hfind
  · exact h path e' hfind

variable {p : Path}

section

variable (h : Formed entries)

include h

theorem Formed.put
    (hkind : forall old, get entries p = some old -> old.isDir = e.isDir)
    (hparent : IsDir entries p.dropLast) :
    Formed (entries.put (absolute p) e) := by
  have hdirs : forall q, IsDir entries q ->
      IsDir (entries.put (absolute p) e) q := by
    intro q hq
    rcases hq with ⟨d, hd, hisDir⟩
    by_cases hqp : q = p
    · refine ⟨e, by rw [get_put, if_pos hqp], ?_⟩
      rw [← hkind d (hqp ▸ hd), hisDir]
    · exact ⟨d, by rw [get_put, if_neg hqp, hd], hisDir⟩
  constructor
  · exact canonical_put h.canonical p e
  · exact hdirs [] h.root
  · intro q n e' hget
    rw [get_put] at hget
    apply hdirs
    split at hget
    · rename_i hqp
      rw [← hqp, dropLast_concat] at hparent
      exact hparent
    · exact h.parent q n e' hget

theorem Formed.parent_of_get
    (hget : get entries p = some e) : IsDir entries p.dropLast := by
  rcases eq_nil_or_concat' p with hnil | ⟨dirs, name, hconcat⟩
  · rw [hnil]
    exact h.root
  · rw [hconcat, dropLast_concat]
    rw [hconcat] at hget
    exact h.parent dirs name e hget

theorem Formed.update {old e : FileEntry}
    (hget : get entries p = some old) (hkind : old.isDir = e.isDir) :
    Formed (entries.put (absolute p) e) := by
  apply h.put
  · intro old' hold'
    rw [hget] at hold'
    cases hold'
    exact hkind
  · exact h.parent_of_get hget

theorem Formed.insert (e : FileEntry) (hget : get entries p = none)
    (hcheck : checkParent entries (absolute p) = Except.ok ()) :
    Formed (entries.put (absolute p) e) := by
  apply h.put
  · intro old hold
    rw [hget] at hold
    cases hold
  · rcases (checkParent_absolute entries p).mp hcheck with hp | hdir
    · rcases h.root with ⟨d, hd, _⟩
      rw [← hp, hget] at hd
      cases hd
    · exact hdir

theorem Formed.without (hp : p ≠ []) {entries' : Entries}
    (hget : forall q, get entries' q =
      if p <+: q then none else get entries q)
    (hcanonical : forall path e, entries'.find path = some e ->
      exists q, path = absolute q) : Formed entries' := by
  have hdirs : forall q, ¬ p <+: q -> IsDir entries q -> IsDir entries' q := by
    intro q hq hdir
    rcases hdir with ⟨d, hd, hisDir⟩
    exact ⟨d, by rw [hget, if_neg hq, hd], hisDir⟩
  constructor
  · exact hcanonical
  · exact hdirs [] (fun hpre => hp (prefix_nil.mp hpre)) h.root
  · intro q n e hfind
    rw [hget] at hfind
    split at hfind
    · cases hfind
    · rename_i hout
      apply hdirs
      · intro hpre
        exact hout (hpre.trans (prefix_append q [n]))
      · exact h.parent q n e hfind

theorem Formed.none_below_file {p q : Path}
    (hget : get entries p = some e) (hfile : e.isDir = false)
    (hbelow : Below p q) : get entries q = none := by
  cases hq : get entries q with
  | none => rfl
  | some e' =>
    rcases h.isDir_of_below hbelow hq with ⟨d, hd, hisDir⟩
    rw [hget] at hd
    cases hd
    rw [hfile] at hisDir
    cases hisDir

theorem Formed.removeFile
    (hget : get entries p = some e) (hfile : e.isDir = false) :
    Formed (del entries (absolute p)) := by
  have hp : p ≠ [] := by
    intro hp
    rcases h.root with ⟨d, hd, hisDir⟩
    rw [← hp, hget] at hd
    cases hd
    rw [hfile] at hisDir
    cases hisDir
  apply h.without hp ?_ (canonical_del h.canonical _)
  intro q
  rw [get_del]
  by_cases hq : q = p
  · rw [if_pos hq, if_pos (hq ▸ prefix_rfl)]
  · rw [if_neg hq]
    split
    · rename_i hpre
      rcases prefix_iff_eq_or_below.mp hpre with heq | hbelow
      · exact absurd heq.symm hq
      · exact h.none_below_file hget hfile hbelow
    · rfl

theorem Formed.del_file (hfile : (get entries p).any FileEntry.isDir = false) :
    Formed (del entries (absolute p)) := by
  cases hget : get entries p with
  | some e =>
    rw [hget] at hfile
    exact h.removeFile hget hfile
  | none =>
    have hsame : forall q, get (del entries (absolute p)) q =
        get entries q := by
      intro q
      rw [get_del]
      split
      · rename_i hq
        rw [hq, hget]
      · rfl
    have hdirs : forall q, IsDir entries q ->
        IsDir (del entries (absolute p)) q := by
      intro q hdir
      rwa [IsDir, hsame]
    constructor
    · exact canonical_del h.canonical _
    · exact hdirs [] h.root
    · intro q n e hfind
      rw [hsame] at hfind
      exact hdirs q (h.parent q n e hfind)

/-- A file in the place of another file, or of none. -/
theorem Formed.replaced {src dst : Path}
    {entry : FileEntry} (hsrc : get entries src = some entry)
    (hfile : entry.isDir = false)
    (hcheck : checkParent entries (absolute dst) = Except.ok ())
    (hdst : (get entries dst).any FileEntry.isDir = false) :
    Formed ((del (del entries (absolute dst))
      (absolute src)).put (absolute dst) entry) := by
  have hfirst := h.del_file hdst
  have hsecond : Formed (del (del entries (absolute dst))
      (absolute src)) := by
    apply hfirst.del_file
    rw [get_del]
    split
    · rfl
    · rw [hsrc]
      exact hfile
  apply hsecond.put
  · intro old hold
    rw [get_del, get_del, if_pos rfl] at hold
    split at hold <;> cases hold
  rcases (checkParent_absolute entries dst).mp hcheck with hnil | hdir
  · rcases h.root with ⟨d, hd, hisDir⟩
    rw [hnil, hd] at hdst
    exact absurd hisDir (by simpa using hdst)
  rcases hdir with ⟨d, hd, hisDir⟩
  refine ⟨d, ?_, hisDir⟩
  have hsrcne : dst.dropLast ≠ src := by
    intro heq
    rw [heq, hsrc] at hd
    cases hd
    rw [hfile] at hisDir
    cases hisDir
  have hdstne : dst.dropLast ≠ dst := by
    intro heq
    rw [heq] at hd
    rw [hd] at hdst
    exact absurd hisDir (by simpa using hdst)
  rw [get_del, if_neg hsrcne, get_del, if_neg hdstne, hd]

end

end Changes

end Memfs
end OpenViking
