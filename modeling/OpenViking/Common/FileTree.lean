import OpenViking.Common.Assoc
import OpenViking.Common.Path

/-!
# File trees

A file tree binds relative paths to entries.  In a rooted tree every entry
stands in a directory.
-/

namespace OpenViking
namespace Paths

open Assoc List

inductive Entry (content : Type) where
  | file (c : content)
  | dir
deriving DecidableEq

abbrev FileTree (content : Type) : Type :=
  Assoc Path (Entry content)

namespace FileTree

variable {content : Type}

/-- A tree whose root is a directory and whose entries all have a parent. -/
structure Rooted (content : Type) where
  tree : FileTree content
  root : tree.find [] = some .dir
  parent : forall p n e, tree.find (p ++ [n]) = some e ->
    tree.find p = some .dir

/-- The entries directly in a directory, with their names. -/
def children (t : FileTree content) (d : Path) : List (Name × Entry content) :=
  t.bindings.filterMap fun b =>
    if b.1.dropLast = d then b.1.getLast?.map fun n => (n, b.2) else none

def removeBelow (t : FileTree content) (p : Path) (kept : Path -> Bool) :
    FileTree content :=
  t.retain fun q _ => !decide (p <+: q) || kept q

def copyBelow (t source : FileTree content) (p : Path)
    (carried : Path -> Bool) : FileTree content :=
  t.putAll (source.bindings.filter fun b =>
    decide (p <+: b.1) && carried b.1)

theorem mem_children {t : FileTree content} {d : Path} {n : Name}
    {e : Entry content} :
    (n, e) ∈ t.children d <-> t.find (d ++ [n]) = some e := by
  rw [children, mem_filterMap]
  constructor
  · intro h
    rcases h with ⟨⟨q, e'⟩, hmem, heq⟩
    have hfind := mem_bindings.mp hmem
    rcases eq_nil_or_concat' q with rfl | ⟨r, m, rfl⟩
    · simp at heq
    rw [dropLast_concat, getLast?_concat] at heq
    by_cases hr : r = d
    · rw [if_pos hr] at heq
      cases heq
      rw [← hr]
      exact hfind
    · rw [if_neg hr] at heq
      cases heq
  · intro h
    exists (d ++ [n], e)
    constructor
    · exact mem_bindings.mpr h
    · simp

theorem find_removeBelow (t : FileTree content) (p : Path)
    (kept : Path -> Bool) (q : Path) :
    (t.removeBelow p kept).find q =
      if p <+: q ∧ kept q = false then none else t.find q := by
  rw [removeBelow, find_retain]
  cases t.find q with
  | none => simp
  | some e =>
    by_cases hp : p <+: q
    · cases kept q <;> simp [hp]
    · simp [hp]

theorem find_copyBelow (t source : FileTree content) (p : Path)
    (carried : Path -> Bool) (q : Path) :
    (t.copyBelow source p carried).find q =
      if p <+: q ∧ carried q = true then (source.find q).or (t.find q)
      else t.find q := by
  have hkeys : ((source.bindings.filter fun b =>
      decide (p <+: b.1) && carried b.1).map Prod.fst).Nodup :=
    (nodup_bindings_keys source).sublist
      (List.Sublist.map _ filter_sublist)
  by_cases hq : p <+: q ∧ carried q = true
  · rw [if_pos hq]
    cases hs : source.find q with
    | none =>
      refine find_putAll_of_notMem t ?_
      intro hmem
      rcases mem_map.mp hmem with ⟨b, hb, heq⟩
      have hfind := mem_bindings.mp (mem_filter.mp hb).1
      rw [heq, hs] at hfind
      cases hfind
    | some e =>
      refine find_putAll_of_mem t hkeys (k := q) (v := e) ?_
      refine mem_filter.mpr ⟨mem_bindings.mpr hs, ?_⟩
      simp [hq.1, hq.2]
  · rw [if_neg hq]
    refine find_putAll_of_notMem t ?_
    intro hmem
    rcases mem_map.mp hmem with ⟨b, hb, heq⟩
    have htest := (mem_filter.mp hb).2
    rw [heq] at htest
    exact hq (by simpa using htest)

namespace Rooted

/-- The tree with one file, in its root. -/
def single (n : Name) (c : content) : Rooted content where
  tree := (put ∅ [] .dir).put [n] (.file c)
  root := by
    rw [find_put_ne _ _ (by simp), find_put_self]
  parent := by
    intro p m e h
    have hp : p = [] := by
      rw [find_put] at h
      split at h
      next heq =>
        rcases List.append_eq_singleton_iff.mp heq with hleft | hright
        · exact hleft.1
        · exact absurd hright.2 (by simp)
      · rw [find_put_ne _ _ (by simp), find_empty] at h
        cases h
    rw [hp, find_put_ne _ _ (by simp), find_put_self]

theorem dir_above (t : Rooted content) {p q : Path} {e : Entry content}
    (hbelow : Below p q) (h : t.tree.find q = some e) :
    t.tree.find p = some .dir := by
  rcases below_iff_exists.mp hbelow with ⟨r, hr, rfl⟩
  clear hbelow
  induction r using reverseRecOn generalizing e with
  | nil => exact absurd rfl hr
  | append_singleton r n ih =>
    rw [← append_assoc] at h
    have hparent := t.parent _ _ _ h
    by_cases hnil : r = []
    · subst hnil
      simpa using hparent
    · exact ih hnil hparent

theorem none_below (t : Rooted content) {p q : Path}
    (hp : t.tree.find p ≠ some .dir) (hbelow : Below p q) :
    t.tree.find q = none := by
  cases h : t.tree.find q with
  | none => rfl
  | some e => exact absurd (t.dir_above hbelow h) hp

end Rooted
end FileTree
end Paths
end OpenViking
