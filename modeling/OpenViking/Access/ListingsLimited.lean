import OpenViking.Access.ConfinedPairs
import OpenViking.Access.Listings

/-!
# A limited listing is the front of the whole one
-/

namespace OpenViking
namespace Access

open Paths Segments List

section Collect

variable {visit : Entry -> Except ListingError (Option Str)} {limit : Option Nat}
  {entries : List Entry} {found all : List (Entry × Str)}

theorem collect_of_reached (h : limitReached limit found.length = true) :
    collect visit limit entries found = .ok found := by
  cases entries with
  | nil => rfl
  | cons entry rest => rw [collect, if_pos h]

theorem collect_append (xs ys : List Entry) (found : List (Entry × Str)) :
    collect visit limit (xs ++ ys) found =
      match collect visit limit xs found with
      | .error error => .error error
      | .ok before => collect visit limit ys before := by
  induction xs generalizing found with
  | nil => rfl
  | cons x xs ih =>
    by_cases hreached : limitReached limit found.length = true
    · rw [collect_of_reached hreached, collect_of_reached hreached]
      exact (collect_of_reached hreached).symm
    · rw [cons_append, collect, collect, if_neg hreached, if_neg hreached]
      cases visit x with
      | error error => rfl
      | ok shown =>
        cases shown with
        | none => exact ih found
        | some uri => exact ih _

theorem collect_extends (h : collect visit limit entries found = .ok all) :
    found <+: all := by
  induction entries generalizing found with
  | nil =>
    cases h
    exact prefix_rfl
  | cons entry rest ih =>
    rw [collect] at h
    split at h
    · cases h
      exact prefix_rfl
    · split at h
      · cases h
      · exact ih h
      · exact (prefix_append _ _).trans (ih h)

theorem collect_take {n : Nat} (h : collect visit none entries found = .ok all)
    (hle : found.length ≤ n) :
    collect visit (some n) entries found = .ok (all.take n) := by
  induction entries generalizing found with
  | nil =>
    cases h
    rw [take_of_length_le hle]
    rfl
  | cons entry rest ih =>
    by_cases hreached : n ≤ found.length
    · have hfront := prefix_iff_eq_take.mp (collect_extends h)
      rw [collect_of_reached (limitReached_of_le hreached), ← Nat.le_antisymm hle hreached,
        ← hfront]
    have hnot : limitReached (some n) found.length ≠ true := by
      simpa [limitReached] using hreached
    rw [collect] at h ⊢
    rw [if_neg (by simp [limitReached])] at h
    rw [if_neg hnot]
    cases hvisit : visit entry with
    | error error =>
      rw [hvisit] at h
      cases h
    | ok shown =>
      rw [hvisit] at h
      cases shown with
      | none => exact ih h hle
      | some uri =>
        apply ih h
        rw [length_append, length_singleton]
        omega

/-- What a listing shows was visited. -/
theorem visit_of_mem_collect (h : collect visit limit entries found = .ok all)
    {x : Entry × Str} (hx : x ∈ all) : x ∈ found ∨ visit x.1 = .ok (some x.2) := by
  induction entries generalizing found with
  | nil =>
    cases h
    exact .inl hx
  | cons entry rest ih =>
    rw [collect] at h
    split at h
    · cases h
      exact .inl hx
    split at h
    · cases h
    · exact ih h
    · rename_i uri hvisit
      rcases ih h with hold | hnew
      · rcases mem_append.mp hold with hold | hlast
        · exact .inl hold
        · rw [mem_singleton.mp hlast]
          exact .inr hvisit
      · exact .inr hnew

/-!
# Rounds and pages
-/

theorem treeRounds_eq (visit : Entry -> Except ListingError (Option Str))
    (entries : List Entry) (n round : Nat) :
    treeRounds visit entries n round = collect visit (some n) entries [] := by
  fun_induction treeRounds visit entries n round with
  | case1 round raw error hraw =>
    rw [← take_append_drop (rawLimit n round) entries, collect_append, hraw]
  | case2 round raw visible hraw hmore ih => exact ih
  | case3 round raw visible hraw hdone =>
    rw [← take_append_drop (rawLimit n round) entries, collect_append, hraw]
    by_cases henough : n ≤ visible.length
    · exact (collect_of_reached (limitReached_of_le henough)).symm
    · have hall : entries.length ≤ rawLimit n round := by
        by_contra hlong
        exact hdone ⟨by omega, by simp only [raw, length_take]; omega⟩
      rw [drop_of_length_le hall]
      rfl

theorem globRounds_eq (visit : Entry -> Except ListingError (Option Str))
    (entries : List Entry) (nodeLimit : Option Nat) (offset : Nat)
    (found : List (Entry × Str)) :
    globRounds visit entries nodeLimit offset found =
      collect visit (globLimit nodeLimit) (entries.drop offset) found := by
  fun_induction globRounds visit entries nodeLimit offset found with
  | case1 offset found size error hpage =>
    rw [← take_append_drop size (entries.drop offset), collect_append, hpage]
  | case2 offset found size found' hpage hreached =>
    rw [← take_append_drop size (entries.drop offset), collect_append, hpage]
    exact (collect_of_reached hreached).symm
  | case3 offset found size found' hpage hreached hmore ih =>
    rw [← take_append_drop size (entries.drop offset), collect_append, hpage,
      drop_drop]
    exact ih
  | case4 offset found size found' hpage hreached hlast =>
    rw [← take_append_drop size (entries.drop offset), collect_append, hpage,
      drop_drop, drop_of_length_le (Nat.le_of_not_lt hlast)]
    rfl

end Collect

/-!
# What a caller is shown
-/

/-- The name of an entry is no internal one, and the caller may access the URI that
its storage path stands for. -/
def Entry.VisibleTo (fs : VikingFS) (ctx : RequestContext) (name : Entry -> Str)
    (entry : Entry) : Prop :=
  (pathParts entry.path ≠ [] -> isNameVisibleAtPath (name entry)
    (pathOfParts (pathParts entry.path).dropLast) = true) ∧
  exists uri, pathToUri entry.path ctx = .ok uri ∧ isAccessible fs uri ctx = .ok true

variable {r : Listing} {name : Entry -> Str}

theorem visibleTo_of_isPathEntryVisible {entry : Entry}
    (h : isPathEntryVisible r.fs entry.path (name entry) r.path r.ctx = .ok true) :
    entry.VisibleTo r.fs r.ctx name := by
  rw [isPathEntryVisible] at h
  split at h
  · cases h
  dsimp only at h
  split at h
  · cases h
  rename_i hname
  cases huri : pathToUri entry.path r.ctx with
  | error error =>
    rw [huri] at h
    cases h
  | ok uri =>
    rw [huri] at h
    refine ⟨fun hparts => ?_, uri, huri, h⟩
    by_contra hinternal
    exact hname ⟨hparts, eq_false_of_ne_true hinternal⟩

theorem visibleTo_of_visit {entry : Entry} {uri : Str}
    (h : r.visit name entry = .ok (some uri)) : entry.VisibleTo r.fs r.ctx name := by
  rw [Listing.visit] at h
  cases hvisible : isPathEntryVisible r.fs entry.path (name entry) r.path r.ctx with
  | error error =>
    rw [hvisible] at h
    cases h
  | ok visible =>
    rw [hvisible] at h
    cases visible with
    | false => cases h
    | true => exact visibleTo_of_isPathEntryVisible hvisible

theorem visibleTo_of_collect {limit : Option Nat} {entries : List Entry}
    {shown : List (Entry × Str)}
    (h : collect (r.visit name) limit entries [] = .ok shown) :
    forall x, x ∈ shown -> x.1.VisibleTo r.fs r.ctx name := by
  intro x hx
  rcases visit_of_mem_collect h hx with hnone | hvisit
  · cases hnone
  · exact visibleTo_of_visit hvisit

section Listings

variable {storage : Storage} {fs : VikingFS} {ctx : RequestContext} {uri : Str}

/-- The loop that a listing ends in. -/
def listed (storage : Storage) (fs : VikingFS) (ctx : RequestContext) (uri : Str)
    (name : Entry -> Str) (entries : Str -> List Entry) (limit : Option Nat) :
    Except ListingError (List (Entry × Str)) :=
  match resolveListing storage fs ctx uri with
  | .error error => .error error
  | .ok none => .ok []
  | .ok (some (primaryPath, path)) =>
    collect (Listing.visit ⟨fs, storage, ctx, uri, primaryPath, path⟩ name) limit
      (entries path) []

variable {entries : Str -> List Entry}

theorem listed_take {all : List (Entry × Str)}
    (h : listed storage fs ctx uri name entries none = .ok all) (n : Nat) :
    listed storage fs ctx uri name entries (some n) = .ok (all.take n) := by
  rw [listed] at h ⊢
  split at h
  · cases h
  · cases h
    rw [take_nil]
  · exact collect_take h (Nat.zero_le n)

variable {shown : List (Entry × Str)}

theorem visibleTo_of_listed {limit : Option Nat}
    (h : listed storage fs ctx uri name entries limit = .ok shown) :
    forall x, x ∈ shown -> x.1.VisibleTo fs ctx name := by
  rw [listed] at h
  split at h
  · cases h
  · cases h
    exact fun x hx => absurd hx not_mem_nil
  · exact visibleTo_of_collect h

variable {pattern : Str} {showAllHidden : Bool} {levelLimit : Option Nat}

theorem tree_eq (nodeLimit : Option Nat) :
    tree storage fs ctx uri showAllHidden levelLimit nodeLimit =
      listed storage fs ctx uri treeName
        (fun path => storage.treeEntries path showAllHidden levelLimit) nodeLimit := by
  rw [tree, listed]
  cases resolveListing storage fs ctx uri with
  | error error => rfl
  | ok found =>
    cases found with
    | none => rfl
    | some found =>
      cases nodeLimit with
      | none => rfl
      | some n => exact treeRounds_eq _ _ n 0

theorem glob_eq (hpattern : pattern.all fs.charClass.isSpace = false)
    (nodeLimit : Option Nat) :
    glob storage fs ctx pattern uri nodeLimit =
      listed storage fs ctx uri globName
        (fun path => storage.globEntries path pattern) (globLimit nodeLimit) := by
  rw [glob, if_neg (ne_true_of_eq_false hpattern), listed]
  cases resolveListing storage fs ctx uri with
  | error error => rfl
  | ok found =>
    cases found with
    | none => rfl
    | some found => exact globRounds_eq _ _ nodeLimit 0 []

theorem pattern_of_glob {nodeLimit : Option Nat}
    (h : glob storage fs ctx pattern uri nodeLimit = .ok shown) :
    pattern.all fs.charClass.isSpace = false := by
  by_contra hblank
  rw [glob, if_pos (eq_true_of_ne_false hblank)] at h
  cases h

end Listings

/-- A limited listing is the front of the whole one, and everything shown may be
seen.  A glob limit of zero is none. -/
theorem listings_limited (storage : Storage) (fs : VikingFS) (ctx : RequestContext)
    (uri : Str) :
    (forall showAllHidden levelLimit all,
      tree storage fs ctx uri showAllHidden levelLimit none = .ok all ->
      forall n, tree storage fs ctx uri showAllHidden levelLimit (some n) =
        .ok (all.take n)) ∧
    (forall pattern all, glob storage fs ctx pattern uri none = .ok all ->
      forall n, glob storage fs ctx pattern uri (some n) =
        .ok (if n = 0 then all else all.take n)) ∧
    (forall showAllHidden levelLimit nodeLimit shown,
      tree storage fs ctx uri showAllHidden levelLimit nodeLimit = .ok shown ->
      forall x, x ∈ shown -> x.1.VisibleTo fs ctx treeName) ∧
    forall pattern nodeLimit shown,
      glob storage fs ctx pattern uri nodeLimit = .ok shown ->
      forall x, x ∈ shown -> x.1.VisibleTo fs ctx globName := by
  refine ⟨?_, ?_, ?_, ?_⟩
  · intro showAllHidden levelLimit all h n
    rw [tree_eq] at h ⊢
    exact listed_take h n
  · intro pattern all h n
    have hpattern := pattern_of_glob h
    rw [glob_eq hpattern] at h ⊢
    cases n with
    | zero => exact h
    | succ n => exact listed_take h (n + 1)
  · intro showAllHidden levelLimit nodeLimit shown h
    rw [tree_eq] at h
    exact visibleTo_of_listed h
  · intro pattern nodeLimit shown h
    rw [glob_eq (pattern_of_glob h)] at h
    exact visibleTo_of_listed h

/-!
# A directory with an internal file
-/

def samplePath (name : Str) : Str :=
  "/local/acme/resources/".toList ++ name

def sampleStorage : Storage where
  pathExists := fun _ => .ok true
  looksLikeLegacySessionDir := fun _ => .ok false
  legacySessionOwner := fun _ => .ok []
  treeEntries := fun _ _ _ => []
  globEntries := fun _ _ =>
    [".path.ovlock".toList, "a.md".toList, "b.md".toList].map fun name =>
      ⟨samplePath name, name⟩

def sampleGlob (nodeLimit : Option Nat) : Except ListingError (List (Entry × Str)) :=
  glob sampleStorage sampleFS alice "*".toList "viking://resources".toList
    nodeLimit

def sampleShown (name : Str) : Entry × Str :=
  (⟨samplePath name, name⟩, "viking://resources/".toList ++ name)

theorem sampleGlob_none :
    sampleGlob none = .ok [sampleShown "a.md".toList, sampleShown "b.md".toList] := by
  rw [sampleGlob, glob_eq (by decide)]
  decide +kernel

theorem listings_limited_sample :
    sampleGlob (some 1) = .ok [sampleShown "a.md".toList] :=
  (listings_limited sampleStorage sampleFS alice
    "viking://resources".toList).2.1 _ _ sampleGlob_none 1

/-- With a limit of zero the whole listing is returned. -/
theorem glob_ignores_zero :
    ¬ forall all, sampleGlob none = .ok all ->
      forall n, sampleGlob (some n) = .ok (all.take n) := by
  intro h
  have hzero := h _ sampleGlob_none 0
  rw [sampleGlob, glob_eq (by decide)] at hzero
  exact absurd hzero (by decide +kernel)

end Access
end OpenViking
