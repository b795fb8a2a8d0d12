import OpenViking.Common.Decimal
import OpenViking.Ragfs.TreeLimits

/-!
# Pages of a glob

The matches of a glob pattern are sorted by path components and cut into pages.
A page names the next one by a token that holds the scope of the request and
the offset.
-/

namespace OpenViking
namespace Ragfs

open Paths List Nat
open Segments

inductive GlobError (ε : Type) where
  | invalidOperation (message : Str)
  | backend (error : ε)

/-- The nonempty segments that are not dots. -/
def splitSegments (value : Str) : List Str :=
  (segments '/' value).filter fun segment => decide (segment ≠ ['.'])

def normalizeRelPath (value : Str) : Str :=
  List.intercalate ['/'] (splitSegments value)

/-- The loop over the segments of a pattern. -/
def validateSegments {ε : Type} (sawSegment : Bool) :
    List Str -> Except (GlobError ε) Unit
  | [] =>
    if sawSegment then
      .error (.invalidOperation "empty glob pattern".toList)
    else .ok ()
  | segment :: rest =>
    if segment = [] then validateSegments sawSegment rest
    else if segment ≠ ['.'] then .ok ()
    else validateSegments true rest

def validatePattern {ε : Type} (pattern : Str) : Except (GlobError ε) Unit :=
  if pattern = [] then
    .error (.invalidOperation "empty glob pattern".toList)
  else validateSegments false (pattern.splitOn '/')

/-- The libraries and the backend that a glob uses. -/
structure GlobHost (ε : Type) where
  tree : Tree ε
  toLower : Str -> Str
  /-- `GlobBuilder` with literal separators: a matcher or an error text. -/
  buildGlob : Str -> Except Str (Str -> Bool)
  /-- The SHA-256 of a text, in lower-case hexadecimal digits. -/
  sha256 : Str -> Str
  sha256_hex : forall (text : Str) (c : Char), c ∈ sha256 text ->
    c ∈ "0123456789abcdef".toList

structure PreparedGlob where
  matcher : Option (Str -> Bool)

def PreparedGlob.new {ε : Type} (host : GlobHost ε) (pattern : Str) :
    Except (GlobError ε) PreparedGlob :=
  (validatePattern pattern).bind fun _ =>
    let normalized := normalizeRelPath pattern
    if normalized = [] then .ok ⟨none⟩
    else
      match host.buildGlob normalized with
      | .ok matcher => .ok ⟨some matcher⟩
      | .error err =>
        .error (.invalidOperation
          ("invalid glob pattern: ".toList ++ err))

def PreparedGlob.isMatch (glob : PreparedGlob) (relPath : Str) : Bool :=
  match glob.matcher with
  | none => false
  | some matcher => matcher (normalizeRelPath relPath)

/-!
# Continuation tokens
-/

/-- A missing level limit counts as the largest machine word. -/
def tokenScope {ε : Type} (host : GlobHost ε) (path pattern : Str)
    (showHidden : Bool) (levelLimit : Option Nat) : Str :=
  host.sha256 (path ++ Char.ofNat 0 :: pattern ++
    [Char.ofNat 0, Char.ofNat showHidden.toNat, Char.ofNat 0] ++
    decimal (levelLimit.getD (2 ^ 64 - 1)))

def encodeOffsetToken {ε : Type} (host : GlobHost ε) (offset : Nat)
    (path pattern : Str) (showHidden : Bool) (levelLimit : Option Nat) : Str :=
  tokenScope host path pattern showHidden levelLimit ++ ':' :: decimal offset

/-- `split_once`. -/
def splitOnce (mark : Char) (text : Str) : Option (Str × Str) :=
  if mark ∈ text then
    some (cutAt mark text, text.drop ((cutAt mark text).length + 1))
  else none

/-- `parse`; a plus sign is allowed before the digits. -/
def parseOffset (text : Str) : Option Nat :=
  let digits := if text.head? = some '+' then text.tail else text
  if digits ≠ [] ∧ digits.all Char.isDigit then
    some (Nat.ofDigitChars 10 digits 0)
  else none

def decodeOffsetToken {ε : Type} (host : GlobHost ε) (token : Option Str)
    (path pattern : Str) (showHidden : Bool) (levelLimit : Option Nat) :
    Except (GlobError ε) Nat :=
  match token with
  | none => .ok 0
  | some raw =>
    if raw = [] then
      .error (.invalidOperation
        "empty continuation token".toList)
    else
      match splitOnce ':' raw with
      | none =>
        .error (.invalidOperation
          "invalid continuation token".toList)
      | some (scope, offset) =>
        if scope ≠ tokenScope host path pattern showHidden levelLimit then
          .error (.invalidOperation
            "continuation token scope mismatch".toList)
        else
          match parseOffset offset with
          | some n => .ok n
          | none =>
            .error (.invalidOperation
              "invalid continuation token".toList)

/-!
# Pages
-/

structure GlobEntry where
  path : Str
  relPath : Str
  name : Str
  isDir : Bool
deriving DecidableEq

structure GlobPage where
  entries : List GlobEntry
  nextToken : Option Str
deriving DecidableEq

def globEntry (entry : TreeEntry) : GlobEntry where
  path := entry.path
  relPath := entry.relPath
  name := entry.info.name
  isDir := entry.info.isDir

/-- `compare_rel_paths` as an order. -/
def relPathLe (left right : GlobEntry) : Bool :=
  decide (splitSegments left.relPath ≤ splitSegments right.relPath)

/-- The matches, sorted. -/
def matchedEntries (glob : PreparedGlob) (entries : List TreeEntry) :
    List GlobEntry :=
  ((entries.filter fun entry => glob.isMatch entry.relPath).map
    globEntry).mergeSort relPathLe

section GlobDirectory

variable {ε : Type} (host : GlobHost ε) (path pattern : Str)
  (showHidden : Bool) (pageSize levelLimit : Option Nat)

def globPage (matched : List GlobEntry) (token : Option Str) :
    Except (GlobError ε) GlobPage :=
  (decodeOffsetToken host token path pattern showHidden levelLimit).bind
    fun start =>
      if matched.length < start then
        .error (.invalidOperation
          "continuation token out of range".toList)
      else
        let stop := min
          (match pageSize with
            | some limit => start + limit
            | none => matched.length)
          matched.length
        .ok
          { entries := (matched.take stop).drop start
            nextToken :=
              if stop < matched.length then
                some (encodeOffsetToken host stop path pattern showHidden
                  levelLimit)
              else none }

def globDirectory (token : Option Str) : Except (GlobError ε) GlobPage :=
  (PreparedGlob.new host pattern).bind fun glob =>
    if pageSize = some 0 then
      .error (.invalidOperation
        "page_size must be positive".toList)
    else
      match treeDirectory host.tree host.toLower path showHidden none
          levelLimit with
      | .error e => .error (.backend e)
      | .ok entries =>
        globPage host path pattern showHidden pageSize levelLimit
          (matchedEntries glob entries) token

end GlobDirectory

/-- Reading page after page, from the token to the last page. -/
inductive Follows {ε : Type} (fetch : Option Str -> Except ε GlobPage) :
    Option Str -> List GlobPage -> Prop where
  | last {token : Option Str} {page : GlobPage}
      (hfetch : fetch token = .ok page) (hlast : page.nextToken = none) :
      Follows fetch token [page]
  | next {token : Option Str} {page : GlobPage} {following : Str}
      {pages : List GlobPage} (hfetch : fetch token = .ok page)
      (hnext : page.nextToken = some following)
      (hrest : Follows fetch (some following) pages) :
      Follows fetch token (page :: pages)

/-!
# The pages of a glob are the whole glob

A token leads back to its offset, so the page at a token starts where the page
before it ended.  The pages then are the sorted matches, cut into pieces.
-/

open Emitted

/-!
# Tokens
-/

theorem splitOnce_append {mark : Char} {front : Str} (h : mark ∉ front)
    (rest : Str) : splitOnce mark (front ++ mark :: rest) = some (front, rest) := by
  rw [splitOnce, if_pos (by simp), cutAt_append h, ← singleton_append,
    ← append_assoc]
  have hlen : front.length + 1 = (front ++ [mark]).length := by
    rw [length_append]
    rfl
  rw [hlen, drop_left]

theorem parseOffset_decimal (n : Nat) : parseOffset (decimal n) = some n := by
  have hdigits : forall c, c ∈ decimal n -> c.isDigit = true := fun c hc =>
    isDigit_of_mem_toDigits (by decide) (by decide) hc
  have hplus : (decimal n).head? ≠ some '+' := by
    intro h
    have hmem := hdigits '+' (mem_of_head? h)
    exact absurd hmem (by decide)
  have hne : decimal n ≠ [] := toDigits_ne_nil
  have hback : ofDigitChars 10 (decimal n) 0 = n :=
    ofDigitChars_ten_toDigits
  rw [parseOffset, if_neg hplus, if_pos ⟨hne, all_eq_true.mpr hdigits⟩, hback]

section Pages

variable {ε : Type} (host : GlobHost ε) (path pattern : Str)
  (showHidden : Bool) (levelLimit : Option Nat)

theorem colon_notMem_tokenScope :
    ':' ∉ tokenScope host path pattern showHidden levelLimit := by
  intro h
  have hhex := host.sha256_hex _ ':' h
  exact absurd hhex (by decide)

theorem decode_encode (offset : Nat) :
    decodeOffsetToken host
        (some (encodeOffsetToken host offset path pattern showHidden levelLimit))
        path pattern showHidden levelLimit =
      .ok offset := by
  have hsplit := splitOnce_append
    (colon_notMem_tokenScope host path pattern showHidden levelLimit)
    (decimal offset)
  have hne : encodeOffsetToken host offset path pattern showHidden levelLimit ≠
      [] := by
    rw [encodeOffsetToken]
    simp
  rw [decodeOffsetToken, if_neg hne, encodeOffsetToken, hsplit]
  dsimp only
  rw [if_neg (not_not.mpr rfl), parseOffset_decimal]

/-!
# One page and all pages
-/

variable {host path pattern showHidden levelLimit}

theorem globPage_whole (matched : List GlobEntry) :
    globPage host path pattern showHidden none levelLimit matched none =
      .ok ⟨matched, none⟩ := by
  rw [globPage, decodeOffsetToken]
  dsimp only [Except.bind]
  rw [if_neg (not_lt_zero _)]
  rw [min_self, if_neg (lt_irrefl _), take_length, drop_zero]

/-- The token of an offset; the first page has none. -/
inductive TokenAt (host : GlobHost ε) (path pattern : Str) (showHidden : Bool)
    (levelLimit : Option Nat) : Nat -> Option Str -> Prop where
  | first : TokenAt host path pattern showHidden levelLimit 0 none
  | later (offset : Nat) :
      TokenAt host path pattern showHidden levelLimit offset
        (some (encodeOffsetToken host offset path pattern showHidden levelLimit))

variable {token : Option Str}

variable {offset : Nat}

theorem TokenAt.decode
    (h : TokenAt host path pattern showHidden levelLimit offset token) :
    decodeOffsetToken host token path pattern showHidden levelLimit =
      .ok offset := by
  cases h with
  | first => rfl
  | later => exact decode_encode host path pattern showHidden levelLimit offset

variable {matched : List GlobEntry}

variable {limit : Nat}

theorem globPage_last
    (htoken : TokenAt host path pattern showHidden levelLimit offset token)
    (hstart : offset ≤ matched.length) (hlast : matched.length ≤ offset + limit) :
    globPage host path pattern showHidden (some limit) levelLimit matched token =
      .ok ⟨matched.drop offset, none⟩ := by
  rw [globPage, htoken.decode]
  dsimp only [Except.bind]
  rw [if_neg (not_lt.mpr hstart)]
  rw [min_eq_right hlast, if_neg (lt_irrefl _), take_length]

theorem globPage_next
    (htoken : TokenAt host path pattern showHidden levelLimit offset token)
    (hmore : offset + limit < matched.length) :
    globPage host path pattern showHidden (some limit) levelLimit matched token =
      .ok
        ⟨(matched.drop offset).take limit,
          some (encodeOffsetToken host (offset + limit) path pattern showHidden
            levelLimit)⟩ := by
  have hstart : offset ≤ matched.length :=
    Nat.le_of_lt (Nat.lt_of_le_of_lt (Nat.le_add_right _ _) hmore)
  rw [globPage, htoken.decode]
  dsimp only [Except.bind]
  rw [if_neg (Nat.not_lt.mpr hstart)]
  rw [Nat.min_eq_left (Nat.le_of_lt hmore), if_pos hmore, drop_take,
    Nat.add_sub_cancel_left]

theorem follows_from (hlimit : 0 < limit)
    (htoken : TokenAt host path pattern showHidden levelLimit offset token)
    (hstart : offset ≤ matched.length) :
    exists pages : List GlobPage,
      Follows (globPage host path pattern showHidden (some limit) levelLimit
        matched) token pages ∧
      (pages.map GlobPage.entries).flatten = matched.drop offset := by
  induction hrest : matched.length - offset using Nat.strong_induction_on
    generalizing offset token with
  | h rest ih =>
    rcases Nat.lt_or_ge (offset + limit) matched.length with hmore | hlast
    · have hsmaller : matched.length - (offset + limit) < rest := by omega
      rcases ih _ hsmaller (TokenAt.later (offset + limit))
        (Nat.le_of_lt hmore) rfl with ⟨pages, hpages, hflat⟩
      refine ⟨_, Follows.next (globPage_next htoken hmore) rfl hpages, ?_⟩
      rw [map_cons, flatten_cons, hflat, ← drop_drop,
        take_append_drop]
    · refine ⟨_, Follows.last (globPage_last htoken hstart hlast) rfl, ?_⟩
      exact append_nil _

end Pages

/-!
# The matches
-/

theorem splitSegments_relative {names : List Str}
    (hnames : forall n, n ∈ names -> IsName n) (hne : names ≠ []) :
    splitSegments (relative names) = names := by
  rw [splitSegments, segments_relative hnames hne, filter_eq_self]
  intro n hn
  exact decide_eq_true (hnames n hn).2

theorem relPathLe_trans (a b c : GlobEntry) (hab : relPathLe a b = true)
    (hbc : relPathLe b c = true) : relPathLe a c = true :=
  decide_eq_true (le_trans (of_decide_eq_true hab) (of_decide_eq_true hbc))

theorem relPathLe_total (a b : GlobEntry) :
    (relPathLe a b || relPathLe b a) = true := by
  rw [Bool.or_eq_true]
  rcases le_total (splitSegments a.relPath) (splitSegments b.relPath) with
    hle | hle
  · exact .inl (decide_eq_true hle)
  · exact .inr (decide_eq_true hle)

variable {entries : List TreeEntry}

theorem mem_matchedEntries {glob : PreparedGlob}
    {a : GlobEntry} :
    a ∈ matchedEntries glob entries <->
      exists entry, entry ∈ entries ∧ glob.isMatch entry.relPath = true ∧
        globEntry entry = a := by
  rw [matchedEntries, mem_mergeSort, mem_map]
  constructor
  · intro h
    rcases h with ⟨entry, hmem, heq⟩
    exact ⟨entry, (mem_filter.mp hmem).1, (mem_filter.mp hmem).2, heq⟩
  · intro h
    rcases h with ⟨entry, hmem, hmatch, heq⟩
    exact ⟨entry, mem_filter.mpr ⟨hmem, hmatch⟩, heq⟩

theorem matchedEntries_sorted (glob : PreparedGlob) {base : Str}
    (hstands : forall a, a ∈ entries -> exists names : List Str, Stands base names a)
    (hpairs : entries.Pairwise fun a b => a.relPath ≠ b.relPath) :
    (matchedEntries glob entries).Pairwise fun a b =>
      splitSegments a.relPath < splitSegments b.relPath := by
  have hsorted : (matchedEntries glob entries).Pairwise
      fun a b => relPathLe a b = true :=
    pairwise_mergeSort relPathLe_trans relPathLe_total _
  have hdifferent : (matchedEntries glob entries).Pairwise
      fun a b => a.relPath ≠ b.relPath := by
    refine ((mergeSort_perm _ _).pairwise_iff fun h => h.symm).mpr ?_
    exact pairwise_map.mpr (hpairs.filter _)
  refine (hsorted.and hdifferent).imp_of_mem ?_
  intro a b ha hb hab
  refine lt_of_le_of_ne (of_decide_eq_true hab.1) fun heq => hab.2 ?_
  rcases mem_matchedEntries.mp ha with ⟨entry, hentry, _, rfl⟩
  rcases mem_matchedEntries.mp hb with ⟨other, hother, _, rfl⟩
  rcases hstands entry hentry with ⟨names, hfirst⟩
  rcases hstands other hother with ⟨names', hlast⟩
  have hnames : names = names' := by
    rw [← splitSegments_relative hfirst.2.1 hfirst.1, ← hfirst.2.2.2,
      ← splitSegments_relative hlast.2.1 hlast.1, ← hlast.2.2.2]
    exact heq
  show entry.relPath = other.relPath
  rw [hfirst.2.2.2, hlast.2.2.2, hnames]

/-!
# The glob
-/

section Whole

variable {ε : Type} {host : GlobHost ε} {path pattern : Str}
  {showHidden : Bool} {levelLimit : Option Nat}

theorem globDirectory_eq_page {glob : PreparedGlob}
    (hglob : PreparedGlob.new host pattern = .ok glob)
    (htree : treeDirectory host.tree host.toLower path showHidden none
      levelLimit = .ok entries) {pageSize : Option Nat}
    (hsize : pageSize ≠ some 0) :
    globDirectory host path pattern showHidden pageSize levelLimit =
      globPage host path pattern showHidden pageSize levelLimit
        (matchedEntries glob entries) := by
  funext token
  rw [globDirectory, hglob]
  dsimp only [Except.bind]
  rw [if_neg hsize, htree]

theorem globDirectory_whole {all : GlobPage}
    (h : globDirectory host path pattern showHidden none levelLimit none =
      .ok all) :
    exists (glob : PreparedGlob) (entries : List TreeEntry),
      PreparedGlob.new host pattern = .ok glob ∧
      treeDirectory host.tree host.toLower path showHidden none levelLimit =
        .ok entries ∧
      all = ⟨matchedEntries glob entries, none⟩ := by
  cases hglob : PreparedGlob.new host pattern with
  | error e =>
    rw [globDirectory, hglob] at h
    cases h
  | ok glob =>
    cases htree : treeDirectory host.tree host.toLower path showHidden none
        levelLimit with
    | error e =>
      rw [globDirectory, hglob] at h
      dsimp only [Except.bind] at h
      rw [if_neg (by simp), htree] at h
      cases h
    | ok entries =>
      rw [globDirectory_eq_page hglob htree (by simp), globPage_whole] at h
      cases h
      exact ⟨glob, entries, rfl, rfl, rfl⟩

theorem globDirectory_error {e : GlobError ε}
    (h : globDirectory host path pattern showHidden none levelLimit none =
      .error e) {limit : Nat} (hlimit : 0 < limit) :
    globDirectory host path pattern showHidden (some limit) levelLimit none =
      .error e := by
  have hsize : some limit ≠ some 0 := fun heq =>
    absurd (Option.some.inj heq) (pos_iff_ne_zero.mp hlimit)
  cases hglob : PreparedGlob.new host pattern with
  | error e' =>
    rw [globDirectory, hglob] at h ⊢
    exact h
  | ok glob =>
    cases htree : treeDirectory host.tree host.toLower path showHidden none
        levelLimit with
    | error e' =>
      rw [globDirectory, hglob] at h ⊢
      dsimp only [Except.bind] at h ⊢
      rw [if_neg (by simp), htree] at h
      rw [if_neg hsize, htree]
      exact h
    | ok entries =>
      rw [globDirectory_eq_page hglob htree (by simp), globPage_whole] at h
      cases h

end Whole

/-!
# A small tree
-/

/-- A directory with a file in it, beside a file. -/
def shelfListing (path : Str) : Except Unit (List FileInfo) :=
  if path = ['/'] then
    .ok [⟨['a'], true⟩, ⟨['b'], false⟩]
  else if path = ['/', 'a'] then .ok [⟨['x'], false⟩]
  else .error ()

theorem shelfListing_eq_ok {path : Str} {entries : List FileInfo}
    (h : shelfListing path = .ok entries) :
    (path = ['/'] ∧ entries = [⟨['a'], true⟩, ⟨['b'], false⟩]) ∨
      (path = ['/', 'a'] ∧ entries = [⟨['x'], false⟩]) := by
  rw [shelfListing] at h
  split at h
  · rename_i hroot
    exact .inl ⟨hroot, (Except.ok.inj h).symm⟩
  · split at h
    · rename_i hdir
      exact .inr ⟨hdir, (Except.ok.inj h).symm⟩
    · cases h

def shelf : Tree Unit where
  readDir := shelfListing
  height path := if path = ['/'] then 1 else 0
  descends := by
    intro path entries h
    rcases shelfListing_eq_ok h with ⟨rfl, rfl⟩ | ⟨rfl, rfl⟩
    · decide
    · decide
  names := by
    intro path entries h
    rcases shelfListing_eq_ok h with ⟨rfl, rfl⟩ | ⟨rfl, rfl⟩
    · decide
    · decide
  distinct := by
    intro path entries h
    rcases shelfListing_eq_ok h with ⟨rfl, rfl⟩ | ⟨rfl, rfl⟩
    · decide
    · decide

/-- The digest of the scope of the pattern `**` at the root. -/
def shelfScope : Str :=
  "55a1eaf5ba73670a84511b0e8bfb9f42540ae1f61be0930389e388786927757a".toList

/-- The matcher of `**` matches every path. -/
def shelfHost : GlobHost Unit where
  tree := shelf
  toLower := id
  buildGlob _ := .ok fun _ => true
  sha256 _ := shelfScope
  sha256_hex := by
    intro _ c hc
    have hall : (shelfScope.all fun c =>
        decide (c ∈ "0123456789abcdef".toList)) = true := by decide
    exact of_decide_eq_true (List.all_eq_true.mp hall c hc)

theorem shelf_listings_sorted {path : Str} {entries : List FileInfo}
    (h : shelf.readDir path = .ok entries) :
    sortDirectoryEntries id entries = entries := by
  apply mergeSort_of_pairwise
  rcases shelfListing_eq_ok h with ⟨rfl, rfl⟩ | ⟨rfl, rfl⟩
  · decide
  · decide

def shelfEntries : List TreeEntry :=
  [⟨"/a".toList, "a".toList, ⟨['a'], true⟩⟩,
    ⟨"/a/x".toList, "a/x".toList, ⟨['x'], false⟩⟩,
    ⟨"/b".toList, "b".toList, ⟨['b'], false⟩⟩]

theorem treeDirectory_shelf :
    treeDirectory shelf id ['/'] false none none = .ok shelfEntries := by
  rw [treeDirectory_eq_ok_iff, treeWalk,
    walk_order (fun _ _ h => shelf_listings_sorted h)]
  rfl

theorem globDirectory_shelf :
    globDirectory shelfHost ['/'] ['*', '*'] false none none none =
      .ok ⟨shelfEntries.map globEntry, none⟩ := by
  have hglob : PreparedGlob.new shelfHost ['*', '*'] =
      .ok ⟨some fun _ => true⟩ := by rfl
  have hsorted : matchedEntries ⟨some fun _ => true⟩ shelfEntries =
      shelfEntries.map globEntry := by
    apply mergeSort_of_pairwise
    decide
  rw [globDirectory_eq_page hglob treeDirectory_shelf (by simp),
    globPage_whole, hsorted]

/--
The pages of a glob, from the first one on, come to an end and are together the
glob without pages, which holds each match once, sorted by path components.  A
node limit takes the first entries of the traversal; a level limit takes the
entries that are at most that deep.
-/
theorem globDirectory_pages {ε : Type} (host : GlobHost ε) (path : Str)
    (showHidden : Bool) :
    (forall (pattern : Str) (levelLimit : Option Nat) (limit : Nat),
      0 < limit ->
      (forall e : GlobError ε,
        globDirectory host path pattern showHidden none levelLimit none =
            .error e ->
          globDirectory host path pattern showHidden (some limit) levelLimit
            none = .error e) ∧
      forall all : GlobPage,
        globDirectory host path pattern showHidden none levelLimit none =
            .ok all ->
          (exists pages : List GlobPage,
            Follows (globDirectory host path pattern showHidden (some limit)
              levelLimit) none pages ∧
            (pages.map GlobPage.entries).flatten = all.entries) ∧
          all.nextToken = none ∧
          (all.entries.Pairwise fun a b =>
            splitSegments a.relPath < splitSegments b.relPath) ∧
          exists (glob : PreparedGlob) (entries : List TreeEntry),
            PreparedGlob.new host pattern = .ok glob ∧
            treeDirectory host.tree host.toLower path showHidden none
              levelLimit = .ok entries ∧
            forall a : GlobEntry, a ∈ all.entries <->
              exists entry, entry ∈ entries ∧
                glob.isMatch entry.relPath = true ∧ globEntry entry = a) ∧
    (forall (levelLimit : Option Nat) (entries : List TreeEntry),
      treeDirectory host.tree host.toLower path showHidden none levelLimit =
          .ok entries ->
        forall n : Nat,
          treeDirectory host.tree host.toLower path showHidden (some n)
            levelLimit = .ok (entries.take n)) ∧
    (forall entries : List TreeEntry,
      treeDirectory host.tree host.toLower path showHidden none none =
          .ok entries ->
        forall d : Nat,
          treeDirectory host.tree host.toLower path showHidden none (some d) =
            .ok (entries.filter (withinLevel d))) := by
  refine ⟨?_, fun _ _ h n => treeDirectory_take _ _ _ _ h n,
    fun _ h d => treeDirectory_level _ _ _ _ h d⟩
  intro pattern levelLimit limit hlimit
  refine ⟨fun e h => globDirectory_error h hlimit, ?_⟩
  intro all hall
  rcases globDirectory_whole hall with ⟨glob, entries, hglob, htree, heq⟩
  have hwalk := (treeDirectory_eq_ok_iff _ _ _ _).mp htree
  have hsize : some limit ≠ some 0 := fun h =>
    absurd (Option.some.inj h) (Nat.pos_iff_ne_zero.mp hlimit)
  rw [heq]
  refine ⟨?_, rfl, ?_, glob, entries, hglob, htree, ?_⟩
  · rw [globDirectory_eq_page hglob htree hsize]
    exact follows_from hlimit TokenAt.first (Nat.zero_le _)
  · apply matchedEntries_sorted
    · intro a ha
      have hplace := treeWalk_stands host.tree host.toLower path showHidden
        levelLimit a
      rw [hwalk] at hplace
      rcases hplace ha with ⟨name, more, hstands⟩
      exact ⟨_, hstands⟩
    · have hpairs := treeWalk_pairwise host.tree host.toLower path showHidden
        levelLimit
      rw [hwalk] at hpairs
      exact hpairs
  · intro a
    exact mem_matchedEntries

theorem globDirectory_pages_shelf :
    exists pages : List GlobPage,
      Follows (globDirectory shelfHost ['/'] ['*', '*'] false (some 2) none) none
        pages ∧
      (pages.map GlobPage.entries).flatten = shelfEntries.map globEntry :=
  (((globDirectory_pages shelfHost ['/'] false).1 ['*', '*'] none 2
    (by decide)).2 _ globDirectory_shelf).1

end Ragfs
end OpenViking
