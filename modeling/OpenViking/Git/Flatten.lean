import OpenViking.Git.Tree

/-!
# Flattening and looking up

`flatten` walks a stored tree with a stack of directories and leaves out those
that no filter can match.  `lookupCached` walks one path and keeps the trees it
has decoded.
-/

namespace OpenViking
namespace Git

open Paths List Name

namespace Tree

/-!
# The walk
-/

/-- A directory is entered when a filter may match a path below it. -/
def shouldDescend (filters : Option (List Str)) (path : Path) : Bool :=
  filters.all fun filters => filters.any fun f =>
    f.isPrefixOf (render path) || (render path).isPrefixOf f

def included (filters : Option (List Str)) (path : Path) : Bool :=
  filters.all fun filters => filters.any fun f => f.isPrefixOf (render path)

/-- The entries of one directory go onto the stack or into the result. -/
def visit (filters : Option (List Str)) (pre : Path) :
    Tree -> List (Path × Tree) -> List (Path × BlobId) ->
      List (Path × Tree) × List (Path × BlobId)
  | nil, stack, result => (stack, result)
  | blob name oid rest, stack, result =>
    visit filters pre rest stack
      (if included filters (pre ++ [name]) then result ++ [(pre ++ [name], oid)]
      else result)
  | dir name sub rest, stack, result =>
    visit filters pre rest
      (if shouldDescend filters (pre ++ [name]) then (pre ++ [name], sub) :: stack
      else stack) result

/-- The fuel bounds the number of directories that are taken from the stack. -/
def walk (filters : Option (List Str)) :
    Nat -> List (Path × Tree) -> List (Path × BlobId) -> List (Path × BlobId)
  | 0, _, result => result
  | _ + 1, [], result => result
  | fuel + 1, (pre, t) :: stack, result =>
    walk filters fuel (visit filters pre t stack result).1
      (visit filters pre t stack result).2

def directories : Tree -> Nat
  | nil => 1
  | blob _ _ rest => directories rest
  | dir _ sub rest => directories sub + directories rest

def flattened (filters : Option (List Str)) (t : Tree) : List (Path × BlobId) :=
  (walk filters t.directories [([], t)] []).insertionSort pairLe

/-- The result of `flatten`: path strings with their blobs. -/
def flattenStrings (filters : Option (List Str)) (t : Tree) : List (Str × BlobId) :=
  (t.flattened filters).map fun b => (render b.1, b.2)

/-!
# Lookups
-/

abbrev TreeLookupCache := Assoc Tree TreeEntries

/-- The decoded entries of a tree, from the cache or from the store. -/
def cachedEntries (cache : TreeLookupCache) (t : Tree) :
    TreeEntries × TreeLookupCache :=
  match cache.find t with
  | some entries => (entries, cache)
  | none => (t.loadTreeEntries, cache.put t t.loadTreeEntries)

def lookupComponents (cache : TreeLookupCache) (t : Tree) :
    List Str -> Except GitError (Option Entry) × TreeLookupCache
  | [] => (.ok none, cache)
  | component :: rest =>
    if component = [] then
      (.error (.other "empty path component"), cache)
    else
      let decoded := cachedEntries cache t
      match (Name.ofChars? component).bind decoded.1.find with
      | none => (.ok none, decoded.2)
      | some entry =>
        if rest = [] then (.ok (some entry), decoded.2)
        else
          match entry with
          | .tree oid =>
            lookupComponents decoded.2 (oid.getD nil) rest
          | .blob _ => (.ok none, decoded.2)

def lookupCached (cache : TreeLookupCache) (t : Tree) (path : Str) :
    Except GitError (Option Entry) × TreeLookupCache :=
  if path = [] then (.error (.other "empty path"), cache)
  else lookupComponents cache t (path.splitOn '/')

def lookup (t : Tree) (path : Str) : Except GitError (Option Entry) :=
  (lookupCached ∅ t path).1

def cacheAfter (earlier : List (Tree × Str)) : TreeLookupCache :=
  earlier.foldl (fun cache call => (lookupCached cache call.1 call.2).2) ∅

/-!
# What the walk lists
-/

variable {t : Tree}

variable {oid : BlobId}

theorem mem_listing_under {pre q : Path}
    (h : (q, oid) ∈ t.listing pre) : Below pre q := by
  induction t generalizing pre with
  | nil => cases h
  | blob name oid' rest ih =>
    rcases mem_cons.mp h with heq | hrest
    · cases heq
      exact below_append_singleton pre name
    · exact ih hrest
  | dir name sub rest ihsub ih =>
    rcases mem_append.mp h with hsub | hrest
    · exact (below_append_singleton pre name).trans (ihsub hsub)
    · exact ih hrest

variable {filters : Option (List Str)}

theorem shouldDescend_of_included {d q : Path}
    (hd : d ≠ []) (hbelow : Below d q) (h : included filters q = true) :
    shouldDescend filters d = true := by
  cases filters with
  | none => rfl
  | some filters =>
    rcases any_eq_true.mp h with ⟨f, hf, hpre⟩
    have hdir : render d <+: render q :=
      (prefix_append _ _).trans ((render_slash_prefix_iff hd).mpr hbelow)
    apply any_eq_true.mpr
    refine ⟨f, hf, ?_⟩
    rw [Bool.or_eq_true, isPrefixOf_iff_prefix, isPrefixOf_iff_prefix]
    exact prefix_or_prefix_of_prefix (List.isPrefixOf_iff_prefix.mp hpre) hdir

theorem filter_listing_of_not_descend
    {d : Path} (hd : d ≠ []) (h : shouldDescend filters d = false) :
    (t.listing d).filter (fun b => included filters b.1) = [] := by
  apply filter_eq_nil_iff.mpr
  rintro ⟨q, oid⟩ hmem hincluded
  rw [shouldDescend_of_included hd (mem_listing_under hmem) hincluded] at h
  cases h

def pending (filters : Option (List Str)) (stack : List (Path × Tree)) :
    List (Path × BlobId) :=
  stack.flatMap fun d => (d.2.listing d.1).filter fun b => included filters b.1

theorem visit_perm (filters : Option (List Str)) (pre : Path) (t : Tree)
    (stack : List (Path × Tree)) (result : List (Path × BlobId)) :
    ((visit filters pre t stack result).2 ++
        pending filters (visit filters pre t stack result).1).Perm
      (result ++ (pending filters ((pre, t) :: stack))) := by
  induction t generalizing stack result with
  | nil => exact List.Perm.refl _
  | blob name oid rest ih =>
    rw [visit]
    apply (ih _ _).trans
    rw [pending, pending, flatMap_cons, flatMap_cons, listing,
      filter_cons]
    dsimp only
    split
    · rw [append_assoc, singleton_append, cons_append]
    · exact List.Perm.refl _
  | dir name sub rest _ ih =>
    rw [visit]
    apply (ih _ _).trans
    apply List.Perm.append_left
    rw [pending, pending, flatMap_cons, flatMap_cons, listing,
      filter_append]
    dsimp only
    split
    case isTrue =>
      rw [flatMap_cons, ← append_assoc]
      exact perm_append_comm.append_right _
    case isFalse hnot =>
      rw [filter_listing_of_not_descend (by simp) (Bool.eq_false_iff.mpr hnot),
        nil_append]

def stackDirectories (stack : List (Path × Tree)) : Nat :=
  (stack.map fun d => d.2.directories).sum

theorem visit_directories (filters : Option (List Str)) (pre : Path) (t : Tree)
    (stack : List (Path × Tree)) (result : List (Path × BlobId)) :
    stackDirectories (visit filters pre t stack result).1 + 1 <=
      stackDirectories ((pre, t) :: stack) := by
  induction t generalizing stack result with
  | nil =>
    simp only [visit, stackDirectories, map_cons, sum_cons, directories]
    omega
  | blob name oid rest ih =>
    rw [visit]
    exact ih _ _
  | dir name sub rest _ ih =>
    rw [visit]
    apply (ih _ _).trans
    split
    · simp only [stackDirectories, map_cons, sum_cons, directories]
      omega
    · simp only [stackDirectories, map_cons, sum_cons, directories]
      omega

theorem walk_perm (filters : Option (List Str)) {fuel : Nat}
    {stack : List (Path × Tree)} (hfuel : stackDirectories stack <= fuel)
    (result : List (Path × BlobId)) :
    (walk filters fuel stack result).Perm (result ++ pending filters stack) := by
  induction fuel generalizing stack result with
  | zero =>
    cases stack with
    | nil => simp [walk, pending]
    | cons d stack =>
      rcases d with ⟨pre, t⟩
      have h := visit_directories filters pre t stack []
      omega
  | succ fuel ih =>
    cases stack with
    | nil => simp [walk, pending]
    | cons d stack =>
      rcases d with ⟨pre, t⟩
      have h := visit_directories filters pre t stack result
      have hrest : stackDirectories (visit filters pre t stack result).1 <= fuel := by
        omega
      exact (ih hrest _).trans (visit_perm filters pre t stack result)

theorem walk_root_perm (filters : Option (List Str)) (t : Tree) :
    (walk filters t.directories [([], t)] []).Perm
      ((t.listing []).filter fun b => included filters b.1) := by
  have hfuel : stackDirectories [([], t)] <= t.directories := by
    simp [stackDirectories]
  have h := walk_perm filters hfuel []
  simpa [pending] using h

/-!
# Sorted paths
-/

instance totalPairLe : Std.Total pairLe :=
  ⟨fun a b => le_total (render a.1) (render b.1)⟩

instance transPairLe : IsTrans (Path × BlobId) pairLe :=
  ⟨fun _ _ _ hab hbc => le_trans hab hbc⟩

/-- A tree that lists no name twice lists no path twice. -/
theorem nodup_listing (h : t.WellFormed) (pre : Path) :
    ((t.listing pre).map Prod.fst).Nodup := by
  induction t generalizing pre with
  | nil => exact nodup_nil
  | blob name oid rest ih =>
    rw [listing, map_cons, nodup_cons]
    refine ⟨?_, ih h.2 pre⟩
    intro hmem
    rcases mem_map.mp hmem with ⟨⟨q, oid'⟩, hq, heq⟩
    rcases (mem_listing h.2).mp hq with ⟨name', tail, hsplit, hin⟩
    have hsame : pre ++ name' :: tail = pre ++ [name] := by
      rw [← hsplit]
      exact heq
    rw [append_cancel_left_eq, cons.injEq] at hsame
    apply h.1
    rw [← hsame.1]
    rcases hin with ⟨_, hentry⟩ | ⟨sub, hentry, _⟩
    · exact mem_map_of_mem hentry
    · exact mem_map_of_mem hentry
  | dir name sub rest ihsub ih =>
    rw [listing, map_append, nodup_append]
    refine ⟨ihsub h.2.1 _, ih h.2.2 pre, ?_⟩
    rintro q hq q' hq' rfl
    rcases mem_map.mp hq with ⟨⟨_, oid⟩, hsub, rfl⟩
    rcases mem_map.mp hq' with ⟨⟨_, oid'⟩, hrest, heq⟩
    rcases (mem_listing h.2.2).mp hrest with ⟨name', tail, hsplit, hin⟩
    rcases below_iff_exists.mp (mem_listing_under hsub) with ⟨r, _, hr⟩
    have hsame : pre ++ name' :: tail = pre ++ name :: r := by
      rw [← hsplit, append_cons pre name r, ← hr]
      exact heq
    rw [append_cancel_left_eq, cons.injEq] at hsame
    apply h.1
    rw [← hsame.1]
    rcases hin with ⟨_, hentry⟩ | ⟨sub', hentry, _⟩
    · exact mem_map_of_mem hentry
    · exact mem_map_of_mem hentry

theorem nodup_flatten_paths (h : t.WellFormed) :
    (t.flatten.map Prod.fst).Nodup :=
  ((perm_insertionSort pairLe _).map Prod.fst).nodup_iff.mpr (nodup_listing h [])

theorem flatten_pairwise (t : Tree) : t.flatten.Pairwise pairLe :=
  pairwise_insertionSort pairLe _

theorem eq_of_perm_of_pairwise {as bs : List (Path × BlobId)} (hperm : as.Perm bs)
    (hnodup : (bs.map Prod.fst).Nodup) (has : as.Pairwise pairLe)
    (hbs : bs.Pairwise pairLe) : as = bs := by
  apply hperm.eq_of_pairwise _ has hbs
  intro a b ha hb hab hba
  have hpath : a.1 = b.1 := render_injective (le_antisymm hab hba)
  exact inj_on_of_nodup_map hnodup (hperm.mem_iff.mp ha) hb hpath

theorem flattened_eq_filter (h : t.WellFormed)
    (filters : Option (List Str)) :
    t.flattened filters = t.flatten.filter fun b => included filters b.1 := by
  have hperm : (t.flattened filters).Perm
      (t.flatten.filter fun b => included filters b.1) := by
    apply (perm_insertionSort pairLe _).trans
    apply (walk_root_perm filters t).trans
    exact ((perm_insertionSort pairLe _).filter _).symm
  apply eq_of_perm_of_pairwise hperm _ (pairwise_insertionSort pairLe _)
    ((flatten_pairwise t).filter _)
  exact (nodup_flatten_paths h).sublist (filter_sublist.map Prod.fst)

theorem flattened_none (h : t.WellFormed) :
    t.flattened none = t.flatten := by
  rw [flattened_eq_filter h]
  exact filter_eq_self.mpr fun _ _ => rfl

/-!
# What a lookup finds
-/

/-- The cache holds what decoding gives. -/
def Decoded (cache : TreeLookupCache) : Prop :=
  forall t entries, cache.find t = some entries -> entries = t.loadTreeEntries

theorem decoded_empty : Decoded ∅ := nofun

variable {cache : TreeLookupCache}

theorem cachedEntries_fst (h : Decoded cache) (t : Tree) :
    (cachedEntries cache t).1 = t.loadTreeEntries := by
  unfold cachedEntries
  cases hfind : cache.find t with
  | none => rfl
  | some entries => exact h t entries hfind

theorem decoded_cachedEntries (h : Decoded cache) (t : Tree) :
    Decoded (cachedEntries cache t).2 := by
  unfold cachedEntries
  cases hfind : cache.find t with
  | some entries => exact h
  | none =>
    intro t' entries hfind'
    rw [Assoc.find_put] at hfind'
    split at hfind'
    case isTrue heq =>
      cases hfind'
      rw [heq]
    case isFalse => exact h t' entries hfind'

theorem decoded_lookupComponents (h : Decoded cache)
    (t : Tree) (components : List Str) :
    Decoded (lookupComponents cache t components).2 := by
  induction components generalizing cache t with
  | nil => exact h
  | cons component rest ih =>
    have hcache := decoded_cachedEntries h t
    rw [lookupComponents]
    dsimp only
    split
    · exact h
    · split
      · exact hcache
      · split
        · exact hcache
        · split
          · exact ih hcache _
          · exact hcache

theorem decoded_lookupCached (h : Decoded cache) (t : Tree)
    (path : Str) : Decoded (lookupCached cache t path).2 := by
  unfold lookupCached
  split
  · exact h
  · exact decoded_lookupComponents h t _

theorem decoded_cacheAfter (earlier : List (Tree × Str)) : Decoded
    (cacheAfter earlier) := by
  have hrun : forall cache : TreeLookupCache, Decoded cache -> Decoded
      (earlier.foldl (fun cache call => (lookupCached cache call.1 call.2).2) cache) := by
    induction earlier with
    | nil => exact fun _ h => h
    | cons call rest ih => exact fun cache h => ih _ (decoded_lookupCached h call.1 call.2)
  exact hrun ∅ decoded_empty

theorem ofChars?_eq_some_iff {c : Str} {name : Name} :
    ofChars? c = some name <-> c = name.chars := by
  unfold ofChars?
  constructor
  · intro h
    split at h
    · cases h
      rfl
    · cases h
  · rintro rfl
    rw [dif_pos ⟨name.nonempty, name.noSlash⟩]

theorem get?_of_nil (q : Path) : nil.get? q = none := by
  cases q with
  | nil => rfl
  | cons name rest => rfl

/-- A lookup finds a file where the tree has one at the path of the components. -/
theorem lookupComponents_eq_blob_iff (h : Decoded cache) {components : List Str} :
    (lookupComponents cache t components).1 = .ok (some (.blob oid)) <->
      exists q : Path, components = q.map chars ∧
        t.get? q = some (.blob oid) := by
  induction components generalizing cache t with
  | nil =>
    constructor
    · nofun
    · rintro ⟨q, hq, hget⟩
      rw [map_eq_nil_iff.mp hq.symm, get?_nil_path] at hget
      cases hget
  | cons component rest ih =>
    have hcache := decoded_cachedEntries h t
    rw [lookupComponents]
    dsimp only
    rw [cachedEntries_fst h]
    by_cases hempty : component = []
    · rw [if_pos hempty]
      constructor
      · nofun
      · rintro ⟨q, hq, _⟩
        cases q with
        | nil => cases hq
        | cons name q =>
          rw [map_cons, cons.injEq] at hq
          exact absurd (hq.1.symm.trans hempty) name.nonempty
    · rw [if_neg hempty]
      cases hname : ofChars? component with
      | none =>
        constructor
        · nofun
        · rintro ⟨q, hq, _⟩
          cases q with
          | nil => cases hq
          | cons name q =>
            rw [map_cons, cons.injEq] at hq
            rw [ofChars?_eq_some_iff.mpr hq.1] at hname
            cases hname
      | some name =>
        have hcomponent : component = name.chars := ofChars?_eq_some_iff.mp hname
        have hpath : (exists q : Path, component :: rest = q.map chars ∧
            t.get? q = some (.blob oid)) <->
            exists q : Path, rest = q.map chars ∧
              t.get? (name :: q) = some (.blob oid) := by
          constructor
          · rintro ⟨q, hq, hget⟩
            cases q with
            | nil => cases hq
            | cons name' q =>
              rw [map_cons, cons.injEq] at hq
              have heq : name' = name := ext (hq.1.symm.trans hcomponent)
              rw [heq] at hget
              exact ⟨q, hq.2, hget⟩
          · rintro ⟨q, hq, hget⟩
            exact ⟨name :: q, by rw [hcomponent, hq, map_cons], hget⟩
        rw [hpath, Option.bind_some]
        by_cases hrest : rest = []
        · subst hrest
          constructor
          · intro hlookup
            refine ⟨[], rfl, ?_⟩
            rw [get?_singleton]
            cases hfind : t.loadTreeEntries.find name with
            | none =>
              rw [hfind] at hlookup
              cases hlookup
            | some entry =>
              rw [hfind] at hlookup
              exact Except.ok.inj hlookup
          · rintro ⟨q, hq, hget⟩
            rw [map_eq_nil_iff.mp hq.symm, get?_singleton] at hget
            rw [hget]
            rfl
        · have hne : forall q : Path, rest = q.map chars -> q ≠ [] := by
            rintro q hq rfl
            exact hrest hq
          cases hfind : t.loadTreeEntries.find name with
          | none =>
            constructor
            · nofun
            · rintro ⟨q, hq, hget⟩
              rw [get?_cons t name (hne q hq), hfind] at hget
              cases hget
          | some entry =>
            dsimp only
            rw [if_neg hrest]
            cases entry with
            | blob oid' =>
              constructor
              · nofun
              · rintro ⟨q, hq, hget⟩
                rw [get?_cons t name (hne q hq), hfind] at hget
                cases hget
            | tree sub =>
              rw [ih hcache]
              constructor
              · rintro ⟨q, hq, hget⟩
                refine ⟨q, hq, ?_⟩
                rw [get?_cons t name (hne q hq), hfind]
                cases sub with
                | none =>
                  rw [Option.getD_none, get?_of_nil] at hget
                  cases hget
                | some sub => exact hget
              · rintro ⟨q, hq, hget⟩
                refine ⟨q, hq, ?_⟩
                rw [get?_cons t name (hne q hq), hfind] at hget
                cases sub with
                | none => cases hget
                | some sub => exact hget

theorem lookupComponents_congr {cache cache' : TreeLookupCache} (h : Decoded cache)
    (h' : Decoded cache') (t : Tree) (components : List Str) :
    (lookupComponents cache t components).1 =
      (lookupComponents cache' t components).1 := by
  induction components generalizing cache cache' t with
  | nil => rfl
  | cons component rest ih =>
    rw [lookupComponents, lookupComponents]
    dsimp only
    rw [cachedEntries_fst h, cachedEntries_fst h']
    split
    · rfl
    · split
      · rfl
      · split
        · rfl
        · split
          · exact ih (decoded_cachedEntries h t) (decoded_cachedEntries h' t) _
          · rfl

theorem lookupCached_eq_lookup (h : Decoded cache) (t : Tree)
    (path : Str) : (lookupCached cache t path).1 = lookup t path := by
  unfold lookup lookupCached
  split
  · rfl
  · exact lookupComponents_congr h decoded_empty t _

theorem splitOn_eq_chars_iff {p : Str} {q : Path} (hq : q ≠ []) :
    p.splitOn '/' = q.map chars <-> render q = p := by
  rw [render_eq_intercalate]
  constructor
  · intro h
    rw [← h, intercalate_splitOn]
  · rintro rfl
    apply splitOn_intercalate
    · intro chars hchars
      rcases mem_map.mp hchars with ⟨name, _, rfl⟩
      exact name.noSlash
    · simpa using hq

theorem lookup_eq_blob_iff {p : Str} :
    lookup t p = .ok (some (.blob oid)) <->
      exists q, render q = p ∧ t.blobAt q = some oid := by
  have hne : forall {q : Path}, t.get? q = some (.blob oid) -> q ≠ [] := by
    rintro q hget rfl
    rw [get?_nil_path] at hget
    cases hget
  unfold lookup lookupCached
  by_cases hp : p = []
  · rw [if_pos hp]
    constructor
    · nofun
    · rintro ⟨q, hq, hblob⟩
      exact absurd (hq.trans hp) (render_ne_nil (hne (blobAt_eq_some_iff.mp hblob)))
  · rw [if_neg hp, lookupComponents_eq_blob_iff decoded_empty]
    constructor
    · rintro ⟨q, hq, hget⟩
      exact ⟨q, (splitOn_eq_chars_iff (hne hget)).mp hq, blobAt_eq_some_iff.mpr hget⟩
    · rintro ⟨q, hq, hblob⟩
      have hget := blobAt_eq_some_iff.mp hblob
      exact ⟨q, (splitOn_eq_chars_iff (hne hget)).mpr hq, hget⟩

theorem mem_flattenStrings (h : t.WellFormed) {p : Str} :
    (p, oid) ∈ t.flattenStrings none <-> exists q, render q = p ∧ t.blobAt q = some oid := by
  unfold flattenStrings
  rw [flattened_none h, mem_map]
  constructor
  · rintro ⟨⟨q, oid'⟩, hmem, heq⟩
    cases heq
    exact ⟨q, rfl, (mem_flatten h).mp hmem⟩
  · rintro ⟨q, rfl, hblob⟩
    exact ⟨(q, oid), (mem_flatten h).mpr hblob, rfl⟩

theorem flattenStrings_filter (h : t.WellFormed) (filters : List Str) :
    t.flattenStrings (some filters) =
      (t.flattenStrings none).filter fun b => filters.any fun f => f.isPrefixOf b.1 := by
  unfold flattenStrings
  rw [flattened_none h, flattened_eq_filter h, filter_map]
  rfl

theorem flattenStrings_sorted (h : t.WellFormed) :
    (t.flattenStrings none).Pairwise (fun a b => a.1 <= b.1) ∧
      ((t.flattenStrings none).map Prod.fst).Nodup := by
  unfold flattenStrings
  rw [flattened_none h]
  constructor
  · exact pairwise_map.mpr (flatten_pairwise t)
  · rw [map_map]
    have hnodup := (nodup_flatten_paths h).map render_injective
    rwa [map_map] at hnodup

/-- Flattening lists what lookups find, whatever lookups have left in the cache, and a
filtered walk lists the part of it that the filters ask for. -/
theorem flatten_lookup_agree {t : Tree} (hwf : t.WellFormed) :
    (forall (earlier : List (Tree × Str)) (p : Str) (oid : BlobId),
      ((p, oid) ∈ t.flattenStrings none <->
        lookup t p = .ok (some (.blob oid))) ∧
      (lookupCached (cacheAfter earlier) t p).1 = lookup t p) ∧
    (forall filters : List Str, t.flattenStrings (some filters) =
      (t.flattenStrings none).filter fun b => filters.any fun f => f.isPrefixOf b.1) ∧
    (t.flattenStrings none).Pairwise (fun a b => a.1 <= b.1) ∧
    ((t.flattenStrings none).map Prod.fst).Nodup := by
  refine ⟨?_, flattenStrings_filter hwf, flattenStrings_sorted hwf⟩
  intro earlier p oid
  constructor
  · rw [mem_flattenStrings hwf, lookup_eq_blob_iff]
  · exact lookupCached_eq_lookup (decoded_cacheAfter earlier) t p

theorem flatten_lookup_agree_nested :
    lookup (dir (Name.ofString "d") (blob (Name.ofString "f") ⟨[1]⟩ nil) nil)
      "d/f".toList = .ok (some (.blob ⟨[1]⟩)) := by
  have hwf : (dir (Name.ofString "d") (blob (Name.ofString "f") ⟨[1]⟩ nil) nil).WellFormed :=
    ⟨List.not_mem_nil, ⟨List.not_mem_nil, trivial⟩, trivial⟩
  have hmem : ("d/f".toList, BlobId.mk [1]) ∈
      (dir (Name.ofString "d") (blob (Name.ofString "f") ⟨[1]⟩ nil) nil).flattenStrings
        none := by decide +kernel
  exact (((flatten_lookup_agree hwf).1 [] "d/f".toList ⟨[1]⟩).1).mp hmem

end Tree
end Git
end OpenViking
