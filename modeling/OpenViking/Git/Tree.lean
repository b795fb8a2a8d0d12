import OpenViking.Common.Path
import OpenViking.Common.Assoc

/-!
# Errors of the snapshot service
-/

namespace OpenViking
namespace Git

open Paths List

/-- Errors of the virtual file system under the service. -/
inductive FsError where
  | notFound (path : Path)
  | alreadyExists (path : Path)
  | isADirectory (path : Path)
  | notADirectory (path : Path)
  | directoryNotEmpty (path : Path)
deriving DecidableEq

inductive GitError where
  | fs (error : FsError)
  | invalidPath (message : String) (path : Str)
  | invalidProjectDir (message : String) (projectDir : Str)
  | invalidIgnoreFile (reason : String)
  | ignoreFileTooLarge (size max : Nat)
  | other (message : String)
deriving DecidableEq

/-- True exactly for `NotFound` errors. -/
def isNotFound : FsError -> Bool
  | .notFound _ => true
  | _ => false

/-!
# Git tree objects

An object id is modelled by the object it names: a blob id holds the bytes it
hashes, and a directory entry holds the subtree it points to.  Equality of ids
is then equality of contents, as it is for a content hash without collisions,
and every id that occurs in a tree can be loaded.
-/

abbrev Bytes := List UInt8

structure BlobId where
  bytes : Bytes
deriving DecidableEq

/-- A stored tree object: the list of its entries. -/
inductive Tree where
  | nil
  | blob (name : Name) (oid : BlobId) (rest : Tree)
  | dir (name : Name) (sub : Tree) (rest : Tree)
deriving DecidableEq

/--
An entry of a tree, as `lookup` returns it and as the editor keeps it.  Only
the editor has entries with the null tree id, written `tree none`.
-/
inductive Entry where
  | blob (oid : BlobId)
  | tree (oid : Option Tree)
deriving DecidableEq

def Entry.isTree : Entry -> Bool
  | blob _ => false
  | tree _ => true

def Entry.blob? : Entry -> Option BlobId
  | blob oid => some oid
  | tree _ => none

abbrev TreeEntries := Assoc Name Entry

namespace Tree

def entries : Tree -> List (Name × Entry)
  | nil => []
  | blob name oid rest => (name, .blob oid) :: entries rest
  | dir name sub rest => (name, .tree (some sub)) :: entries rest

def names (t : Tree) : List Name :=
  t.entries.map Prod.fst

/-- No directory of the tree lists a name twice. -/
def WellFormed : Tree -> Prop
  | nil => True
  | blob name _ rest => name ∉ rest.names ∧ WellFormed rest
  | dir name sub rest =>
    name ∉ rest.names ∧ WellFormed sub ∧ WellFormed rest

/-- The decoded entries of a tree object, keyed by name. -/
def loadTreeEntries (t : Tree) : TreeEntries :=
  Assoc.ofList t.entries

variable {t : Tree}

theorem WellFormed.nodup_names (h : t.WellFormed) :
    t.names.Nodup := by
  induction t with
  | nil => exact nodup_nil
  | blob name oid rest ih =>
    exact nodup_cons.mpr ⟨h.1, ih h.2⟩
  | dir name sub rest _ ih =>
    exact nodup_cons.mpr ⟨h.1, ih h.2.2⟩

variable {name : Name}

theorem WellFormed.sub (h : t.WellFormed) {sub : Tree}
    (hmem : (name, .tree (some sub)) ∈ t.entries) : sub.WellFormed := by
  induction t with
  | nil => cases hmem
  | blob name' oid rest ih =>
    rcases mem_cons.mp hmem with heq | hmem
    · cases heq
    · exact ih h.2 hmem
  | dir name' sub' rest _ ih =>
    rcases mem_cons.mp hmem with heq | hmem
    · cases heq
      exact h.2.1
    · exact ih h.2.2 hmem

theorem find_loadTreeEntries (h : t.WellFormed) {entry : Entry} :
    t.loadTreeEntries.find name = some entry <->
      (name, entry) ∈ t.entries :=
  Assoc.find_ofList_of_nodup h.nodup_names

theorem wellFormed_of_find {t sub : Tree} (h : t.WellFormed)
    (hfind : t.loadTreeEntries.find name = some (.tree (some sub))) :
    sub.WellFormed :=
  h.sub ((find_loadTreeEntries h).mp hfind)

theorem tree_none_not_mem_entries (t : Tree) (name : Name) :
    (name, .tree none) ∉ t.entries := by
  induction t with
  | nil => exact not_mem_nil
  | blob name' oid rest ih => simpa [entries] using ih
  | dir name' sub rest _ ih => simpa [entries] using ih

/-!
# Looking up a path

`get?` walks one component at a time through the decoded entries.
-/

def get? : Tree -> Path -> Option Entry
  | _, [] => none
  | t, name :: rest =>
    match t.loadTreeEntries.find name with
    | none => none
    | some entry =>
      if rest = [] then
        some entry
      else
        match entry with
        | .tree (some sub) => sub.get? rest
        | _ => none

/-- The blob that a tree stores at a path: the tree as a map of files. -/
def blobAt (t : Tree) (p : Path) : Option BlobId :=
  (t.get? p).bind Entry.blob?

@[simp] theorem get?_nil_path (t : Tree) : t.get? [] = none := by
  cases t <;> rfl

@[simp] theorem blobAt_nil_path (t : Tree) : t.blobAt [] = none := by
  simp [blobAt]

theorem get?_singleton (t : Tree) (name : Name) :
    t.get? [name] = t.loadTreeEntries.find name := by
  rw [get?]
  cases t.loadTreeEntries.find name <;> simp

theorem get?_cons (t : Tree) (name : Name) {rest : Path} (hrest : rest ≠ []) :
    t.get? (name :: rest) =
      match t.loadTreeEntries.find name with
      | some (.tree (some sub)) => sub.get? rest
      | _ => none := by
  rw [get?]
  cases t.loadTreeEntries.find name with
  | none => rfl
  | some entry =>
    cases entry with
    | blob oid => simp [hrest]
    | tree oid => cases oid <;> simp [hrest]

variable {oid : BlobId}

variable {p : Path}

theorem blobAt_eq_some_iff :
    t.blobAt p = some oid <-> t.get? p = some (Entry.blob oid) := by
  unfold blobAt
  cases t.get? p with
  | none => simp
  | some entry => cases entry <;> simp [Entry.blob?]

variable {q : Path}

theorem get?_below_blob
    (h : t.get? p = some (.blob oid)) (hbelow : Below p q) :
    t.get? q = none := by
  induction p generalizing t q with
  | nil => simp at h
  | cons name rest ih =>
    rcases below_iff_exists.mp hbelow with ⟨r, hr, rfl⟩
    have happ : rest ++ r ≠ [] := by simp [hr]
    rw [cons_append, get?_cons t name happ]
    by_cases hrest : rest = []
    · subst hrest
      rw [get?_singleton] at h
      rw [h]
    rw [get?_cons t name hrest] at h
    cases hfind : t.loadTreeEntries.find name with
    | none => rfl
    | some entry =>
      cases entry with
      | blob oid' => rfl
      | tree sub =>
        cases sub with
        | none => rfl
        | some sub =>
          rw [hfind] at h
          exact ih h (below_iff_exists.mpr ⟨r, hr, rfl⟩)

theorem blobAt_of_below_blob
    (h : t.blobAt p = some oid) (hbelow : Below p q) : t.blobAt q = none := by
  unfold blobAt
  rw [get?_below_blob (blobAt_eq_some_iff.mp h) hbelow]
  rfl

theorem get?_append (hp : p ≠ []) (hq : q ≠ []) : t.get? (p ++ q) =
      match t.get? p with
      | some (.tree (some sub)) => sub.get? q
      | _ => none := by
  induction p generalizing t with
  | nil => exact absurd rfl hp
  | cons name rest ih =>
    have happ : rest ++ q ≠ [] := by simp [hq]
    rw [cons_append, get?_cons t name happ]
    by_cases hrest : rest = []
    · subst hrest
      rw [get?_singleton, nil_append]
    rw [get?_cons t name hrest]
    cases t.loadTreeEntries.find name with
    | none => rfl
    | some entry =>
      cases entry with
      | blob oid => rfl
      | tree oid =>
        cases oid with
        | none => rfl
        | some sub => exact ih hrest

theorem blobAt_append {t sub : Tree}
    (h : t.get? p = some (Entry.tree (some sub))) (q : Path) :
    t.blobAt (p ++ q) = sub.blobAt q := by
  have hp : p ≠ [] := by
    rintro rfl
    simp at h
  by_cases hq : q = []
  · simp [hq, blobAt, h, Entry.blob?]
  · unfold blobAt
    rw [get?_append hp hq, h]

theorem WellFormed.of_get? {t sub : Tree} (hwf : t.WellFormed)
    (h : t.get? p = some (.tree (some sub))) : sub.WellFormed := by
  induction p generalizing t with
  | nil => simp at h
  | cons name rest ih =>
    by_cases hrest : rest = []
    · subst hrest
      rw [get?_singleton] at h
      exact wellFormed_of_find hwf h
    rw [get?_cons t name hrest] at h
    cases hfind : t.loadTreeEntries.find name with
    | none => simp [hfind] at h
    | some entry =>
      rw [hfind] at h
      cases entry with
      | blob oid => cases h
      | tree oid =>
        cases oid with
        | none => cases h
        | some t' => exact ih (wellFormed_of_find hwf hfind) h

/-!
# Flattening
-/

def listing (pre : Path) : Tree -> List (Path × BlobId)
  | nil => []
  | blob name oid rest => (pre ++ [name], oid) :: listing pre rest
  | dir name sub rest => listing (pre ++ [name]) sub ++ listing pre rest

def pairLe (a b : Path × BlobId) : Prop :=
  RenderLe a.1 b.1

instance decidablePairLe : DecidableRel pairLe :=
  fun a b => inferInstanceAs (Decidable (RenderLe a.1 b.1))

def flatten (t : Tree) : List (Path × BlobId) :=
  (t.listing []).insertionSort pairLe

/-- The paths of `flatten`. -/
def paths (t : Tree) : List Path :=
  t.flatten.map Prod.fst

/-- `blobAt` read off the undecoded entries of the root directory. -/
theorem blobAt_cons_eq_some_iff (h : t.WellFormed) {rest : Path} :
    t.blobAt (name :: rest) = some oid <->
      (rest = [] ∧ (name, .blob oid) ∈ t.entries) ∨
        exists sub, (name, .tree (some sub)) ∈ t.entries ∧
          sub.blobAt rest = some oid := by
  rw [blobAt_eq_some_iff]
  by_cases hrest : rest = []
  · subst hrest
    rw [get?_singleton, find_loadTreeEntries h]
    simp
  rw [get?_cons t name hrest]
  constructor
  · intro hget
    cases hfind : t.loadTreeEntries.find name with
    | none => simp [hfind] at hget
    | some entry =>
      rw [hfind] at hget
      cases entry with
      | blob oid' => cases hget
      | tree sub =>
        cases sub with
        | none => cases hget
        | some sub =>
          exact .inr ⟨sub, (find_loadTreeEntries h).mp hfind,
            blobAt_eq_some_iff.mpr hget⟩
  · intro hmem
    rcases hmem with ⟨hnil, _⟩ | ⟨sub, hmem, hsub⟩
    · exact absurd hnil hrest
    · rw [(find_loadTreeEntries h).mpr hmem]
      exact blobAt_eq_some_iff.mp hsub

theorem mem_listing (h : t.WellFormed) {pre : Path} : (q, oid) ∈ t.listing pre <->
      exists name rest, q = pre ++ name :: rest ∧
        ((rest = [] ∧ (name, .blob oid) ∈ t.entries) ∨
          exists sub, (name, .tree (some sub)) ∈ t.entries ∧
            sub.blobAt rest = some oid) := by
  induction t generalizing pre q with
  | nil => simp [listing, entries]
  | blob name' oid' rest' ih =>
    rw [listing, mem_cons, ih h.2]
    constructor
    · intro hq
      rcases hq with heq | ⟨name, rest, rfl, hrest⟩
      · cases heq
        exact ⟨name', [], rfl, .inl ⟨rfl, mem_cons_self⟩⟩
      · refine ⟨name, rest, rfl, ?_⟩
        rcases hrest with ⟨hrest, hmem⟩ | ⟨sub, hmem, hsub⟩
        · exact .inl ⟨hrest, mem_cons_of_mem _ hmem⟩
        · exact .inr ⟨sub, mem_cons_of_mem _ hmem, hsub⟩
    · intro hq
      rcases hq with ⟨name, rest, rfl, hrest⟩
      rcases hrest with ⟨hrest, hmem⟩ | ⟨sub, hmem, hsub⟩
      · rcases mem_cons.mp hmem with heq | hmem
        · cases heq
          subst hrest
          exact .inl rfl
        · exact .inr ⟨name, rest, rfl, .inl ⟨hrest, hmem⟩⟩
      · rcases mem_cons.mp hmem with heq | hmem
        · cases heq
        · exact .inr ⟨name, rest, rfl, .inr ⟨sub, hmem, hsub⟩⟩
  | dir name' sub' rest' ihsub ih =>
    have hsub : forall q', (q', oid) ∈ sub'.listing (pre ++ [name']) <->
        exists rest, q' = pre ++ name' :: rest ∧ sub'.blobAt rest = some oid := by
      intro q'
      rw [ihsub h.2.1]
      constructor
      · intro hq
        rcases hq with ⟨name, rest, rfl, hrest⟩
        exact ⟨name :: rest, by simp, (blobAt_cons_eq_some_iff h.2.1).mpr hrest⟩
      · intro hq
        rcases hq with ⟨rest, rfl, hrest⟩
        cases rest with
        | nil => simp at hrest
        | cons name rest =>
          exact ⟨name, rest, by simp, (blobAt_cons_eq_some_iff h.2.1).mp hrest⟩
    rw [listing, mem_append, hsub, ih h.2.2]
    constructor
    · intro hq
      rcases hq with ⟨rest, rfl, hrest⟩ | ⟨name, rest, rfl, hrest⟩
      · exact ⟨name', rest, rfl, .inr ⟨sub', mem_cons_self, hrest⟩⟩
      · refine ⟨name, rest, rfl, ?_⟩
        rcases hrest with ⟨hrest, hmem⟩ | ⟨sub, hmem, hsub⟩
        · exact .inl ⟨hrest, mem_cons_of_mem _ hmem⟩
        · exact .inr ⟨sub, mem_cons_of_mem _ hmem, hsub⟩
    · intro hq
      rcases hq with ⟨name, rest, rfl, hrest⟩
      rcases hrest with ⟨hrest, hmem⟩ | ⟨sub, hmem, hsub⟩
      · rcases mem_cons.mp hmem with heq | hmem
        · cases heq
        · exact .inr ⟨name, rest, rfl, .inl ⟨hrest, hmem⟩⟩
      · rcases mem_cons.mp hmem with heq | hmem
        · cases heq
          exact .inl ⟨rest, rfl, hsub⟩
        · exact .inr ⟨name, rest, rfl, .inr ⟨sub, hmem, hsub⟩⟩

theorem mem_flatten (h : t.WellFormed) :
    (p, oid) ∈ t.flatten <-> t.blobAt p = some oid := by
  unfold flatten
  rw [mem_insertionSort, mem_listing h]
  constructor
  · intro hp
    rcases hp with ⟨name, rest, rfl, hrest⟩
    exact (blobAt_cons_eq_some_iff h).mpr hrest
  · intro hp
    cases p with
    | nil => simp at hp
    | cons name rest =>
      exact ⟨name, rest, rfl, (blobAt_cons_eq_some_iff h).mp hp⟩

theorem mem_paths (h : t.WellFormed) :
    p ∈ t.paths <-> exists oid, t.blobAt p = some oid := by
  unfold paths
  rw [mem_map]
  constructor
  · intro hp
    rcases hp with ⟨⟨p', oid⟩, hmem, rfl⟩
    exact ⟨oid, (mem_flatten h).mp hmem⟩
  · intro hp
    rcases hp with ⟨oid, hoid⟩
    exact ⟨(p, oid), (mem_flatten h).mpr hoid, rfl⟩

end Tree

end Git
end OpenViking
