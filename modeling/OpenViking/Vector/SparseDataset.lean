import OpenViking.Common.Csr
import OpenViking.Common.Assoc
import Mathlib.Algebra.Group.Int.Defs
import Mathlib.Algebra.GroupWithZero.Nat
import Mathlib.Data.List.Sort

/-!
# The sparse dataset

`SparseDataset` keeps every sparse vector of the index in two flat vectors,
the indices and the values, and cuts them at `offsets_`.
-/

namespace OpenViking
namespace Vector

open List Csr

/-- `IndexT`: the position of a term in the term table. -/
abbrev IndexT : Type := UInt32

/-- What a call threw. -/
abbrev RuntimeError : Type := String

structure SparseDatapoint (value : Type) where
  indices : List IndexT
  values : List value
deriving DecidableEq

namespace SparseDatapoint

variable {value : Type}

def ofEntries (entries : List (IndexT × value)) : SparseDatapoint value where
  indices := entries.map Prod.fst
  values := entries.map Prod.snd

end SparseDatapoint

structure SparseDataset (value : Type) where
  entries : Nat
  flatIndices : List IndexT
  flatValues : List value
  offsets : List Nat
deriving DecidableEq

/-!
# Edits of a flat vector
-/

section Edits

variable {α : Type}

/-- `insert(begin + at, n, x)`. -/
def insertFill (xs : List α) (pos n : Nat) (x : α) : List α :=
  xs.take pos ++ List.replicate n x ++ xs.drop pos

/-- `erase(begin + first, begin + last)`. -/
def eraseRange (xs : List α) (first last : Nat) : List α :=
  xs.take first ++ xs.drop last

/-- `std::copy` of a vector onto a position. -/
def copyTo (xs : List α) (pos : Nat) (new : List α) : List α :=
  xs.take pos ++ new ++ xs.drop (pos + new.length)

/-- What `update` does to one of the two flat vectors. -/
def rewriteRow (fill : α) (xs : List α) (oldStart oldEnd : Nat)
    (new : List α) : List α :=
  if new.length = oldEnd - oldStart then copyTo xs oldStart new
  else if oldEnd - oldStart < new.length then
    copyTo (insertFill xs oldEnd (new.length - (oldEnd - oldStart)) fill)
      oldStart new
  else copyTo (eraseRange xs (oldStart + new.length) oldEnd) oldStart new

theorem rewriteRow_eq (fill : α) {xs : List α} {oldStart oldEnd : Nat}
    (new : List α) (hle : oldStart ≤ oldEnd) (hlen : oldEnd ≤ xs.length) :
    rewriteRow fill xs oldStart oldEnd new =
      xs.take oldStart ++ new ++ xs.drop oldEnd := by
  rw [rewriteRow]
  split
  next heq =>
    have hend : oldStart + new.length = oldEnd := by omega
    rw [copyTo, hend]
  next hne =>
    split
    next hgrow =>
      have htake : (xs.take oldEnd).take oldStart = xs.take oldStart := by
        rw [take_take, Nat.min_eq_left hle]
      have hlong : (xs.take oldEnd).length = oldEnd := by
        rw [length_take, Nat.min_eq_left hlen]
      rw [copyTo, insertFill, append_assoc (xs.take oldEnd),
        take_append_of_le_length (by omega), htake]
      congr 1
      rw [drop_append, drop_of_length_le (by omega),
        nil_append, drop_append,
        drop_of_length_le (by simp; omega), nil_append,
        length_replicate, hlong]
      have hpast : oldStart + new.length - oldEnd -
            (new.length - (oldEnd - oldStart)) = 0 := by
        omega
      rw [hpast, drop_zero]
    next hshrink =>
      have hlong : (xs.take (oldStart + new.length)).length =
          oldStart + new.length := by
        rw [length_take, Nat.min_eq_left (by omega)]
      rw [copyTo, eraseRange, take_append_of_le_length (by omega),
        take_take, Nat.min_eq_left (Nat.le_add_right _ _),
        drop_append, drop_of_length_le (by omega),
        nil_append, hlong, Nat.sub_self, drop_zero]

end Edits

/-!
# The calls

The checks that the number of entries still fits `size_t` compare a `size_t`
with its largest value and never fail; they are left out.
-/

namespace SparseDataset

variable {value : Type}

def empty : SparseDataset value where
  entries := 0
  flatIndices := []
  flatValues := []
  offsets := [0]

def size (d : SparseDataset value) : Nat :=
  d.offsets.length - 1

def append (d : SparseDataset value) (dp : SparseDatapoint value) :
    Int × SparseDataset value :=
  if dp.values.length ≠ dp.indices.length then (-1, d)
  else
    (0, {
      entries := d.entries + dp.indices.length
      flatIndices := d.flatIndices ++ dp.indices
      flatValues := d.flatValues ++ dp.values
      offsets := d.offsets ++ [d.entries + dp.indices.length] })

def update [Zero value] (d : SparseDataset value) (idx : Nat)
    (dp : SparseDatapoint value) :
    Except RuntimeError (Int × SparseDataset value) :=
  if d.offsets.length - 1 ≤ idx then .error "update out of bounds"
  else if dp.values.length ≠ dp.indices.length then .ok (-1, d)
  else
    let oldStart := d.offsets.getD idx 0
    let oldEnd := d.offsets.getD (idx + 1) 0
    let oldLen := oldEnd - oldStart
    let newLen := dp.indices.length
    .ok (0, {
      entries := d.entries + newLen - oldLen
      flatIndices := rewriteRow 0 d.flatIndices oldStart oldEnd dp.indices
      flatValues := rewriteRow 0 d.flatValues oldStart oldEnd dp.values
      offsets := d.offsets.mapIdx fun i b =>
        if idx < i then b + newLen - oldLen else b })

def getRow (d : SparseDataset value) (i : Nat) :
    Except RuntimeError (SparseDatapoint value) :=
  if d.offsets.length - 1 ≤ i then .error "get row out of bounds"
  else
    let start := d.offsets.getD i 0
    let finish := d.offsets.getD (i + 1) 0
    .ok {
      indices := (d.flatIndices.drop start).take (finish - start)
      values := (d.flatValues.drop start).take (finish - start) }

def popBack (d : SparseDataset value) : SparseDataset value :=
  if d.offsets.length ≤ 1 then d
  else
    let lastStart := d.offsets.getD (d.offsets.length - 2) 0
    let lastEnd := d.offsets.getD (d.offsets.length - 1) 0
    { entries := d.entries - (lastEnd - lastStart)
      flatIndices := d.flatIndices.take lastStart
      flatValues := d.flatValues.take lastStart
      offsets := d.offsets.dropLast }

/-!
# The rows it stands for
-/

/-- The dataset keeps these rows, in this order. -/
structure Holds (d : SparseDataset value)
    (rows : List (List (IndexT × value))) : Prop where
  entries : d.entries = rows.flatten.length
  flatIndices : d.flatIndices = rows.flatten.map Prod.fst
  flatValues : d.flatValues = rows.flatten.map Prod.snd
  offsets : d.offsets = Csr.bounds 0 rows

theorem holds_empty : (empty : SparseDataset value).Holds [] :=
  ⟨rfl, rfl, rfl, rfl⟩

variable {rows : List (List (IndexT × value))} {d : SparseDataset value}

theorem Holds.size (h : d.Holds rows) :
    d.size = rows.length := by
  rw [SparseDataset.size, h.offsets, length_bounds, Nat.add_sub_cancel]

variable {i : Nat}

private theorem Holds.offset (h : d.Holds rows)
    (hi : i ≤ rows.length) : d.offsets.getD i 0 = rowStart rows i := by
  rw [getD_eq_getElem?_getD, h.offsets, getElem?_bounds 0 hi,
    Option.getD_some, Nat.zero_add]

theorem Holds.append (h : d.Holds rows)
    (row : List (IndexT × value)) :
    exists d', d.append (SparseDatapoint.ofEntries row) = (0, d') ∧
      d'.Holds (rows ++ [row]) := by
  rw [SparseDataset.append, if_neg (by simp [SparseDatapoint.ofEntries])]
  refine ⟨_, rfl, ?_, ?_, ?_, ?_⟩
  · simp [h.entries, SparseDatapoint.ofEntries]
  · simp [h.flatIndices, SparseDatapoint.ofEntries]
  · simp [h.flatValues, SparseDatapoint.ofEntries]
  · rw [bounds_append, ← h.offsets]
    simp [h.entries, SparseDatapoint.ofEntries]

theorem Holds.getRow (h : d.Holds rows) (hi : i < rows.length) :
    d.getRow i = .ok (SparseDatapoint.ofEntries rows[i]) := by
  rw [SparseDataset.getRow, if_neg (by
    rw [← SparseDataset.size, h.size]
    omega)]
  simp only [h.offset (Nat.le_of_lt hi), h.offset (i := i + 1) hi,
    h.flatIndices, h.flatValues, ← map_drop, ← map_take,
    slice_row hi]
  rfl

private theorem map_rewriteRow {α : Type} (fill : α) (part : IndexT × value -> α)
    (row : List (IndexT × value)) (hi : i < rows.length) :
    rewriteRow fill (rows.flatten.map part) (rowStart rows i)
        (rowStart rows (i + 1)) (row.map part) =
      (rows.set i row).flatten.map part := by
  have hsplit := congrArg length (flatten_split hi)
  simp only [length_append] at hsplit
  have hstep := rowStart_succ hi
  have hstart : rowStart rows i = (rows.take i).flatten.length := rfl
  rw [rewriteRow_eq fill _ (by omega) (by rw [length_map]; omega),
    ← map_take, ← map_drop, ← map_append, ← map_append,
    splice_row row hi]

theorem Holds.update [Zero value] (h : d.Holds rows)
    (hi : i < rows.length) (row : List (IndexT × value)) :
    exists d', d.update i (SparseDatapoint.ofEntries row) = .ok (0, d') ∧
      d'.Holds (rows.set i row) := by
  rw [SparseDataset.update, if_neg (by
    rw [← SparseDataset.size, h.size]
    omega), if_neg (by simp [SparseDatapoint.ofEntries])]
  simp only [h.offset (Nat.le_of_lt hi), h.offset (i := i + 1) hi]
  have hold := congrArg length (flatten_split hi)
  have hnew := congrArg length (flatten_set row hi)
  have hstep := rowStart_succ hi
  simp only [length_append] at hold hnew
  refine ⟨_, rfl, ?_, ?_, ?_, ?_⟩
  · simp only [h.entries, SparseDatapoint.ofEntries, length_map]
    omega
  · simp only [h.flatIndices, SparseDatapoint.ofEntries]
    exact map_rewriteRow 0 Prod.fst row hi
  · simp only [h.flatValues, SparseDatapoint.ofEntries]
    exact map_rewriteRow 0 Prod.snd row hi
  · simp only [SparseDatapoint.ofEntries, length_map, hstep,
      Nat.add_sub_cancel_left]
    rw [bounds_set 0 row hi, h.offsets]

theorem Holds.popBack (h : d.Holds rows)
    (hne : rows ≠ []) : d.popBack.Holds rows.dropLast := by
  have hpos := length_pos_iff.mpr hne
  have hlen : d.offsets.length = rows.length + 1 := by
    rw [h.offsets, length_bounds]
  rw [SparseDataset.popBack, if_neg (by omega)]
  have hstart : d.offsets.getD (d.offsets.length - 2) 0 =
      rowStart rows (rows.length - 1) := by
    rw [hlen]
    exact h.offset (by omega)
  have hend : d.offsets.getD (d.offsets.length - 1) 0 =
      rows.flatten.length := by
    rw [hlen, Nat.add_sub_cancel, h.offset (Nat.le_refl _), rowStart,
      take_length]
  have hcut := flatten_dropLast hne
  simp only [hstart, hend]
  have hle : rowStart rows (rows.length - 1) ≤ rows.flatten.length := by
    rw [flatten_split (i := rows.length - 1) (by omega), rowStart]
    simp only [length_append]
    omega
  constructor
  · simp only [h.entries, hcut, length_take]
    omega
  · simp only [h.flatIndices, hcut, map_take]
  · simp only [h.flatValues, hcut, map_take]
  · simp only [h.offsets, bounds_dropLast 0 hne]

end SparseDataset

/-!
# The sparse row index

`SparseRowIndex` numbers the terms it meets and keeps one row of the dataset
for each datapoint.  A term is known by the hash of its text.
-/

abbrev TermKey : Type := UInt64

structure SparseRowIndex (value : Type) where
  finishPopulateTerms : Bool
  indexTerm : List TermKey
  termIndex : Assoc TermKey IndexT
  sparseDataset : SparseDataset value
deriving DecidableEq

/-- `FloatValSparseDatapointLowLevel`: what the caller gives. -/
structure LowLevelSparse (term value : Type) where
  rawTerms : Option (List term)
  values : List value

/-- One row as it is written to a file. -/
structure RowRecord (value : Type) where
  idx : UInt32
  nonzeroEntries : UInt32
  indices : List IndexT
  values : List value
deriving DecidableEq

/-- The content of `sparse_retrieval_row_base.bin`. -/
structure SparseFile (value : Type) where
  rows : Nat
  cols : Nat
  avgEntries : Nat
  terms : List TermKey
  records : List (RowRecord value)
deriving DecidableEq

namespace SparseRowIndex

variable {term value : Type}

def new : SparseRowIndex value where
  finishPopulateTerms := false
  indexTerm := []
  termIndex := ∅
  sparseDataset := SparseDataset.empty

variable (s : SparseRowIndex value)

def initEmptyData : SparseRowIndex value :=
  { s with
    finishPopulateTerms := true
    sparseDataset := SparseDataset.empty }

def rows : Nat :=
  s.sparseDataset.size

/-!
# Indexing the terms of a datapoint
-/

/-- What the loop of `index_by_terms` changes. -/
structure IndexLoop (value : Type) where
  termIndex : Assoc TermKey IndexT
  indexTerm : List TermKey
  addTermSet : Assoc TermKey IndexT
  indices : List IndexT
  values : List value

/-- A term that is not known yet gets the next number. -/
def IndexLoop.addTerm (st : IndexLoop value) (key : TermKey) :
    IndexLoop value :=
  match st.termIndex.find key with
  | some _ => st
  | none =>
    { st with
      termIndex := st.termIndex.put key
        (UInt32.ofNat st.termIndex.bindings.length)
      indexTerm := st.indexTerm ++ [key] }

/-- The value of a term that was met before in this datapoint is added up. -/
def IndexLoop.addValue [Add value] (st : IndexLoop value) (key : TermKey)
    (val : value) : IndexLoop value :=
  match st.addTermSet.find key with
  | some at' => { st with values := st.values.modify at'.toNat (· + val) }
  | none =>
    { st with
      addTermSet := st.addTermSet.put key (UInt32.ofNat st.indices.length)
      indices := st.indices ++ [(st.termIndex.find key).getD 0]
      values := st.values ++ [val] }

def IndexLoop.body [Add value] (st : IndexLoop value)
    (item : TermKey × value) : IndexLoop value :=
  (st.addTerm item.1).addValue item.1 item.2

/-- `ZipSortBranchOptimized` on the indices. -/
def zipSort (indices : List IndexT) (values : List value) :
    SparseDatapoint value :=
  SparseDatapoint.ofEntries
    ((indices.zip values).mergeSort fun a b => decide (a.1 ≤ b.1))

def indexByTerms [Add value] (s : SparseRowIndex value)
    (terms : List TermKey) (values : List value) :
    Int × SparseDatapoint value × SparseRowIndex value :=
  if terms.length ≠ values.length then (-1, ⟨[], []⟩, s)
  else if !s.finishPopulateTerms then (-2, ⟨[], []⟩, s)
  else
    let st := (terms.zip values).foldl IndexLoop.body
      { termIndex := s.termIndex
        indexTerm := s.indexTerm
        addTermSet := ∅
        indices := []
        values := [] }
    (0, zipSort st.indices st.values,
      { s with termIndex := st.termIndex, indexTerm := st.indexTerm })

/-- `SparseDataHolder::make_sparse_point_by_low_level`. -/
def makeSparsePoint [Add value] (hash : term -> TermKey)
    (s : SparseRowIndex value) (sparse : LowLevelSparse term value) :
    Int × Option (SparseDatapoint value) × SparseRowIndex value :=
  match sparse.rawTerms with
  | none => (-6, none, s)
  | some rawTerms =>
    if rawTerms.length ≠ sparse.values.length then (-4, none, s)
    else
      let out := s.indexByTerms (rawTerms.map hash) sparse.values
      (0, some out.2.1, out.2.2)

/-!
# Rows
-/

def append (s : SparseRowIndex value) (dp : SparseDatapoint value) :
    Int × SparseRowIndex value :=
  let out := s.sparseDataset.append dp
  (out.1, { s with sparseDataset := out.2 })

def update [Zero value] (s : SparseRowIndex value) (idx : Nat)
    (dp : SparseDatapoint value) :
    Except RuntimeError (Int × SparseRowIndex value) :=
  match s.sparseDataset.update idx dp with
  | .error e => .error e
  | .ok out => .ok (out.1, { s with sparseDataset := out.2 })

def getRow (s : SparseRowIndex value) (i : Nat) :
    Except RuntimeError (SparseDatapoint value) :=
  s.sparseDataset.getRow i

def popBack (s : SparseRowIndex value) : SparseRowIndex value :=
  { s with sparseDataset := s.sparseDataset.popBack }

/-!
# Files
-/

/-- `SparseDatapointView::serialize`, after the row number. -/
def serializeRow (idx : Nat) (dp : SparseDatapoint value) :
    RowRecord value :=
  let nonzeroEntries := UInt32.ofNat dp.indices.length
  { idx := UInt32.ofNat idx
    nonzeroEntries := nonzeroEntries
    indices := dp.indices.take nonzeroEntries.toNat
    values := dp.values.take nonzeroEntries.toNat }

/-- The rows `0 .. rows - 1`; the view of a row is read like the row. -/
def saveRows :
    Except RuntimeError (List (RowRecord value)) :=
  (List.range s.rows).mapM fun i =>
    match s.getRow i with
    | .error e => .error e
    | .ok dp => .ok (serializeRow i dp)

/-- The code that is returned and the file that is written. -/
def saveData :
    Except RuntimeError (Int × Option (SparseFile value)) :=
  if !s.finishPopulateTerms then .ok (-1, none)
  else if 2 ^ 32 - 1 < s.rows then .ok (-2, none)
  else
    match s.saveRows with
    | .error e => .error e
    | .ok records =>
      .ok (0, some {
        rows := s.rows
        cols := s.indexTerm.length
        avgEntries :=
          if 0 < s.rows then s.sparseDataset.entries / s.rows + 1 else 50
        terms := s.indexTerm
        records := records })

/-- The terms of a file join the table; a known term stops the load. -/
def loadTerms (s : SparseRowIndex value) :
    Nat -> List TermKey -> Bool × SparseRowIndex value
  | _, [] => (true, s)
  | ii, key :: rest =>
    match s.termIndex.find key with
    | some _ => (false, s)
    | none =>
      loadTerms
        { s with
          termIndex := s.termIndex.put key (UInt32.ofNat ii)
          indexTerm := s.indexTerm ++ [key] }
        (ii + 1) rest

def loadRows (cols : Nat) (s : SparseRowIndex value) :
    Nat -> List (RowRecord value) -> Int × SparseRowIndex value
  | _, [] => (0, s)
  | ii, record :: rest =>
    if record.idx.toNat ≠ ii then (-4, s)
    else if cols < record.nonzeroEntries.toNat then (-5, s)
    else
      loadRows cols (s.append ⟨record.indices, record.values⟩).2 (ii + 1)
        rest

def loadData :
    Option (SparseFile value) -> Int × SparseRowIndex value
  | none => (-1, s)
  | some file =>
    let s := { s with sparseDataset := SparseDataset.empty }
    match s.loadTerms 0 file.terms with
    | (false, s) => (-4, s)
    | (true, s) =>
      loadRows file.cols { s with finishPopulateTerms := true } 0
        file.records

end SparseRowIndex

end Vector
end OpenViking
