import OpenViking.Common.Path
import OpenViking.Common.Trie
import OpenViking.Scalar.RangedMap

/-!
# The directory index of a path field

A path field keeps a trie over the segments of its keys.  A leaf points to the
bitmap of its key; a bitmap stays in place while it is changed, so the pointer
is modelled by the key of the bitmap.  Keys with the same segments share a
leaf, which keeps the further bitmaps aside.
-/

namespace OpenViking
namespace Scalar

open Paths

structure TrieInfo where
  isLeaf : Bool
  leafBitmap : Option Str
  collisions : List Str
deriving DecidableEq

def TrieInfo.fresh : TrieInfo := ⟨false, none, []⟩

abbrev DirIndex : Type := Trie Str TrieInfo

namespace DirIndex

def empty : DirIndex := .node TrieInfo.fresh .nil

/-- The segments of a path: what stands between slashes and is not empty. -/
def splitPath (path : Str) : List Str :=
  match path with
  | [] => []
  | c :: rest =>
    let body := if c = '/' then rest else path
    (body.splitOn '/').filter fun seg => decide (seg ≠ [])

def bindLeafBitmap (bitmap : Str) (info : TrieInfo) : TrieInfo :=
  match info.leafBitmap with
  | none => { info with isLeaf := true, leafBitmap := some bitmap }
  | some leaf =>
    if leaf = bitmap then { info with isLeaf := true }
    else if bitmap ∈ info.collisions then { info with isLeaf := true }
    else
      { info with isLeaf := true
                  collisions := info.collisions ++ [bitmap] }

def addKey (root : DirIndex) (key bitmap : Str) : DirIndex :=
  root.alter TrieInfo.fresh (bindLeafBitmap bitmap) (splitPath key)

/-- The bitmaps a node contributes. -/
def bitmapsOf (info : TrieInfo) : List Str :=
  if info.isLeaf then info.leafBitmap.toList ++ info.collisions else []

def getMergedBitmaps (root : DirIndex) (pathPrefix : Str) (depth : Int) :
    List Str :=
  match root.find (splitPath pathPrefix) with
  | none => []
  | some start => (start.within depth 0).flatMap bitmapsOf

/-!
# Bound keys
-/

def Bound (root : DirIndex) (path : List Str) (key : Str) : Prop :=
  exists info, root.at path = some info ∧ key ∈ bitmapsOf info

/-- The keys bound in a trie, each at its own segments. -/
structure Binds (root : DirIndex) (keys : Str -> Prop) : Prop where
  wf : root.Wf
  bound : forall path key,
    root.Bound path key <-> keys key ∧ splitPath key = path
  leaves : forall path info, root.at path = some info ->
    info.isLeaf = false -> info = TrieInfo.fresh

theorem mem_bitmapsOf_bind {info : TrieInfo} {bitmap key : Str}
    (h : info.isLeaf = false -> info = TrieInfo.fresh) :
    key ∈ bitmapsOf (bindLeafBitmap bitmap info) <->
      key = bitmap ∨ key ∈ bitmapsOf info := by
  rcases info with ⟨isLeaf, leafBitmap, collisions⟩
  cases isLeaf with
  | false =>
    have hfresh := h rfl
    rw [TrieInfo.fresh, TrieInfo.mk.injEq] at hfresh
    rw [hfresh.2.1, hfresh.2.2]
    simp [bindLeafBitmap, bitmapsOf]
  | true =>
    cases leafBitmap with
    | none => simp [bindLeafBitmap, bitmapsOf]
    | some leaf =>
      rw [bindLeafBitmap]
      by_cases hleaf : leaf = bitmap
      · simp [bitmapsOf, hleaf]
      by_cases hmem : bitmap ∈ collisions
      · simp only [if_neg hleaf, if_pos hmem, bitmapsOf, if_true]
        constructor
        · intro hkey
          exact .inr hkey
        · intro hkey
          rcases hkey with heq | hkey
          · rw [heq]
            exact List.mem_append_right _ hmem
          · exact hkey
      · simp only [if_neg hleaf, if_neg hmem, bitmapsOf, if_true,
          List.mem_append, List.mem_singleton]
        tauto

theorem isLeaf_bind (bitmap : Str) (info : TrieInfo) :
    (bindLeafBitmap bitmap info).isLeaf = true := by
  rw [bindLeafBitmap]
  split
  · rfl
  · split
    · rfl
    · split
      · rfl
      · rfl

theorem binds_empty : Binds empty fun _ => False := by
  refine ⟨trivial, ?_, ?_⟩
  · intro path key
    constructor
    · intro hbound
      rcases hbound with ⟨info, hat, hkey⟩
      rw [empty, Trie.at_fresh] at hat
      split at hat
      · cases hat
        cases hkey
      · cases hat
    · intro hkeys
      exact absurd hkeys.1 id
  · intro path info hat hleaf
    rw [empty, Trie.at_fresh] at hat
    split at hat
    · cases hat
      rfl
    · cases hat

theorem Binds.addKey {root : DirIndex} {keys : Str -> Prop}
    (h : Binds root keys) (key : Str) :
    Binds (root.addKey key key) fun k => k = key ∨ keys k := by
  have hfresh : forall path info, (root.at path).getD TrieInfo.fresh = info ->
      info.isLeaf = false -> info = TrieInfo.fresh := by
    intro path info hinfo hleaf
    cases hat : root.at path with
    | none =>
      rw [hat] at hinfo
      exact hinfo.symm
    | some old =>
      rw [hat] at hinfo
      apply h.leaves path info _ hleaf
      rw [hat]
      exact congrArg some hinfo
  have hkept : forall path k,
      k ∈ bitmapsOf ((root.at path).getD TrieInfo.fresh) <->
        root.Bound path k := by
    intro path k
    rw [Bound]
    cases root.at path with
    | none =>
      constructor
      · nofun
      · intro hk
        rcases hk with ⟨info, hinfo, _⟩
        cases hinfo
    | some info =>
      constructor
      · intro hk
        exact ⟨info, rfl, hk⟩
      · intro hk
        rcases hk with ⟨info', hinfo, hk⟩
        cases hinfo
        exact hk
  refine ⟨Trie.wf_alter _ _ _ h.wf, ?_, ?_⟩
  · intro path k
    rw [Bound, DirIndex.addKey, Trie.at_alter]
    by_cases hpath : path = splitPath key
    · rw [if_pos hpath]
      constructor
      · intro hbound
        rcases hbound with ⟨info, hinfo, hk⟩
        cases hinfo
        rcases (mem_bitmapsOf_bind (hfresh _ _ rfl)).mp hk with heq | hold
        · exact ⟨Or.inl heq, by rw [heq, hpath]⟩
        · have hk' := (h.bound _ k).mp ((hkept _ k).mp hold)
          exact ⟨Or.inr hk'.1, by rw [hk'.2, hpath]⟩
      · intro hk
        refine ⟨_, rfl, (mem_bitmapsOf_bind (hfresh _ _ rfl)).mpr ?_⟩
        rcases hk.1 with heq | hkeys
        · exact .inl heq
        · apply Or.inr
          rw [hkept, h.bound, ← hpath]
          exact ⟨hkeys, hk.2⟩
    · have hother : (k = key ∨ keys k) ∧ splitPath k = path <->
          keys k ∧ splitPath k = path := by
        constructor
        · intro hk
          refine ⟨hk.1.resolve_left ?_, hk.2⟩
          intro heq
          rw [heq] at hk
          exact hpath hk.2.symm
        · intro hk
          exact ⟨Or.inr hk.1, hk.2⟩
      rw [if_neg hpath, hother, ← h.bound]
      by_cases hprefix : path <+: splitPath key
      · rw [if_pos hprefix, ← hkept]
        constructor
        · intro hk
          rcases hk with ⟨info, hinfo, hk⟩
          cases hinfo
          exact hk
        · intro hk
          exact ⟨_, rfl, hk⟩
      · rw [if_neg hprefix]
        rfl
  · intro path info hat hleaf
    rw [DirIndex.addKey, Trie.at_alter] at hat
    split at hat
    · cases hat
      rw [isLeaf_bind] at hleaf
      cases hleaf
    · split at hat
      · cases hat
        exact hfresh path _ rfl hleaf
      · exact h.leaves path info hat hleaf

/-- The bitmaps merged for a path are those of the keys that extend its
segments within the depth. -/
theorem Binds.mem_getMergedBitmaps {root : DirIndex} {keys : Str -> Prop}
    (h : Binds root keys) {pathPrefix : Str} {depth : Int} {key : Str} :
    key ∈ root.getMergedBitmaps pathPrefix depth <->
      keys key ∧ exists rest,
        splitPath key = splitPath pathPrefix ++ rest ∧
          InDepth depth 0 rest := by
  have hat : forall rest, root.at (splitPath pathPrefix ++ rest) =
      (root.find (splitPath pathPrefix)).bind fun start => start.at rest :=
    fun rest => Trie.at_append _ _ _
  rw [getMergedBitmaps]
  cases hfind : root.find (splitPath pathPrefix) with
  | none =>
    constructor
    · nofun
    · intro hkey
      rcases hkey with ⟨hkeys, rest, hsplit, _⟩
      rcases (h.bound _ key).mpr ⟨hkeys, hsplit⟩ with ⟨info, hinfo, _⟩
      rw [hat, hfind] at hinfo
      cases hinfo
  | some start =>
    show key ∈ (start.within depth 0).flatMap bitmapsOf <-> _
    rw [List.mem_flatMap]
    have hwf := Trie.wf_find h.wf hfind
    constructor
    · intro hkey
      rcases hkey with ⟨info, hinfo, hkey⟩
      rcases (Trie.mem_within hwf).mp hinfo with ⟨rest, hrest, hdepth⟩
      have hbound : root.Bound (splitPath pathPrefix ++ rest) key := by
        refine ⟨info, ?_, hkey⟩
        rw [hat, hfind]
        exact hrest
      have hkeys := (h.bound _ key).mp hbound
      exact ⟨hkeys.1, rest, hkeys.2, hdepth⟩
    · intro hkey
      rcases hkey with ⟨hkeys, rest, hsplit, hdepth⟩
      rcases (h.bound _ key).mpr ⟨hkeys, hsplit⟩ with ⟨info, hinfo, hmem⟩
      rw [hat, hfind] at hinfo
      exact ⟨info, (Trie.mem_within hwf).mpr ⟨rest, hinfo, hdepth⟩, hmem⟩

end DirIndex

end Scalar
end OpenViking
