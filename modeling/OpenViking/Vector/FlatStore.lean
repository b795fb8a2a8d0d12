import OpenViking.Common.Path
import OpenViking.Vector.SparseDataset

/-!
# The flat vector store

`BruteforceSearch` keeps one fixed-size element for every vector in one
buffer: the encoded vector, the label and the logical offset.  Two maps lead
from a label and from a logical offset to the row.
-/

namespace OpenViking
namespace Vector

open Paths

abbrev Label : Type := UInt64

abbrev Offset : Type := UInt32

/-- The conversion of a `size_t` to `int`. -/
def toInt (n : Nat) : Int :=
  (n : Int).bmod (2 ^ 32)

/-- The conversion of an `int` to `size_t`. -/
def toSize (i : Int) : Nat :=
  (i % 2 ^ 64).toNat

/-- One element of the buffer. -/
structure Cell (enc : Type) where
  vector : enc
  label : Label
  offset : Offset
deriving DecidableEq

/-- What an index is built with: the quantizer, the hash of terms, and the
content of memory that was never written. -/
structure Config (term vec enc : Type) where
  encode : vec -> enc
  hash : term -> TermKey
  elementByteSize : Nat
  enableSparse : Bool
  junk : Cell enc

structure FlatStore (enc value : Type) where
  capacity : Nat
  buffer : List (Cell enc)
  currentCount : Nat
  labelMap : Assoc Label Int
  offsetMap : Assoc Offset Int
  sparseIndex : Option (SparseRowIndex value)
  nextLogicalOffset : Nat
deriving DecidableEq

/-- `index_flat.data`. -/
structure FlatFile (enc : Type) where
  capacity : Nat
  elementByteSize : Nat
  currentCount : Nat
  cells : List (Cell enc)
  nextLogicalOffset : Option Nat
deriving DecidableEq

/-- The files of a directory that the index reads and writes. -/
structure IndexDir (enc value : Type) where
  flat : Option (FlatFile enc)
  sparse : Option (SparseFile value)
deriving DecidableEq

namespace FlatStore

variable {term vec enc value : Type}

/-- What a call threw, if it did, and what it left behind. -/
abbrev Outcome (enc value : Type) : Type :=
  Except RuntimeError Unit × FlatStore enc value

variable (cfg : Config term vec enc)

def cell (s : FlatStore enc value) (i : Nat) :
    Cell enc :=
  s.buffer.getD i cfg.junk

/-- A new index for a given largest element count. -/
def new (cfg : Config term vec enc) (maxElementCount : Nat) :
    FlatStore enc value where
  capacity := max 1 maxElementCount
  buffer := List.replicate (max 1 maxElementCount) cfg.junk
  currentCount := 0
  labelMap := ∅
  offsetMap := ∅
  sparseIndex :=
    if cfg.enableSparse then some SparseRowIndex.new.initEmptyData else none
  nextLogicalOffset := 0

/-- Memory that is kept stays as it is. -/
def resizeBuffer (s : FlatStore enc value)
    (newCap : Nat) : FlatStore enc value :=
  if newCap < s.currentCount then s
  else
    { s with
      buffer := s.buffer.take newCap ++
        List.replicate (newCap - s.buffer.length) cfg.junk
      capacity := newCap }

/-!
# Adding a point
-/

/-- The datapoint that the caller's sparse data is made into. -/
def convertSparse [Add value] (cfg : Config term vec enc)
    (s : FlatStore enc value) (sparseData : Option (LowLevelSparse term value)) :
    Except RuntimeError (Option (SparseDatapoint value)) × FlatStore enc value :=
  match s.sparseIndex, sparseData with
  | some sparse, some data =>
    let out := sparse.makeSparsePoint cfg.hash data
    let s := { s with sparseIndex := some out.2.2 }
    if out.1 ≠ 0 then (.error "Sparse data conversion failed", s)
    else (.ok out.2.1, s)
  | _, _ => (.ok none, s)

/-- The sparse part of an update: without sparse data the row stays. -/
def updateSparse [Zero value] (s : FlatStore enc value) (index : Nat)
    (sparseDp : Option (SparseDatapoint value)) : Outcome enc value :=
  match s.sparseIndex, sparseDp with
  | some sparse, some dp =>
    match sparse.update index dp with
    | .error e => (.error e, s)
    | .ok out =>
      let s := { s with sparseIndex := some out.2 }
      if out.1 ≠ 0 then (.error "Failed to update sparse data", s)
      else (.ok (), s)
  | _, _ => (.ok (), s)

/-- The sparse part of an insertion: without sparse data an empty row. -/
def appendSparse (s : FlatStore enc value)
    (sparseDp : Option (SparseDatapoint value)) : Outcome enc value :=
  match s.sparseIndex with
  | none => (.ok (), s)
  | some sparse =>
    if s.currentCount ≠ sparse.rows then
      (.error "Sparse/Dense index inconsistency", s)
    else
      match sparseDp with
      | some dp =>
        let out := sparse.append dp
        let s := { s with sparseIndex := some out.2 }
        if out.1 ≠ 0 then (.error "Failed to append sparse data", s)
        else (.ok (), s)
      | none =>
        let out := sparse.append ⟨[], []⟩
        let s := { s with sparseIndex := some out.2 }
        if out.1 ≠ 0 then (.error "Failed to append empty sparse data", s)
        else (.ok (), s)

/-- The end of `add_point`: the vector, if there is one, and the label. -/
def writeElement (s : FlatStore enc value)
    (index : Nat) (vector : Option vec) (label : Label) :
    FlatStore enc value :=
  let old := s.cell cfg index
  { s with
    buffer := s.buffer.set index {
      vector := (vector.map cfg.encode).getD old.vector
      label := label
      offset := old.offset } }

/-- The row of a label that is not in the map yet. -/
def newElement (s : FlatStore enc value)
    (label : Label) : FlatStore enc value :=
  let s :=
    if s.capacity ≤ s.currentCount then
      s.resizeBuffer cfg (s.currentCount * 2 + 1)
    else s
  let index := toInt s.currentCount
  let logicalOffset := UInt32.ofNat s.nextLogicalOffset
  { s with
    labelMap := s.labelMap.put label index
    nextLogicalOffset := s.nextLogicalOffset + 1
    offsetMap := s.offsetMap.put logicalOffset index
    buffer := s.buffer.set (toSize index)
      { s.cell cfg (toSize index) with offset := logicalOffset }
    currentCount := s.currentCount + 1 }

def addPoint [Add value] [Zero value] (cfg : Config term vec enc)
    (s : FlatStore enc value) (vector : Option vec) (label : Label)
    (sparseData : Option (LowLevelSparse term value)) : Outcome enc value :=
  match s.convertSparse cfg sparseData with
  | (.error e, s) => (.error e, s)
  | (.ok sparseDp, s) =>
    match s.labelMap.find label with
    | some index =>
      match s.updateSparse (toSize index) sparseDp with
      | (.error e, s) => (.error e, s)
      | (.ok _, s) =>
        (.ok (), s.writeElement cfg (toSize index) vector label)
    | none =>
      match s.appendSparse sparseDp with
      | (.error e, s) => (.error e, s)
      | (.ok _, s) =>
        let index := toSize (toInt s.currentCount)
        (.ok (), (s.newElement cfg label).writeElement cfg index vector
          label)

/-!
# Removing a point
-/

/-- The last row takes the place of the removed one. -/
def moveElement (s : FlatStore enc value)
    (idxToRemove idxLast : Nat) : FlatStore enc value :=
  let moved := s.cell cfg idxLast
  { s with
    buffer := s.buffer.set idxToRemove moved
    labelMap := s.labelMap.put moved.label (toInt idxToRemove)
    offsetMap := s.offsetMap.put moved.offset (toInt idxToRemove) }

/-- The last sparse row too; a failed update is only logged. -/
def moveSparse [Zero value] (s : FlatStore enc value)
    (idxToRemove idxLast : Nat) : Outcome enc value :=
  match s.sparseIndex with
  | none => (.ok (), s)
  | some sparse =>
    match sparse.getRow idxLast with
    | .error e => (.error e, s)
    | .ok lastRow =>
      match sparse.update idxToRemove lastRow with
      | .error e => (.error e, s)
      | .ok out => (.ok (), { s with sparseIndex := some out.2 })

def removePoint [Zero value] (cfg : Config term vec enc)
    (s : FlatStore enc value) (label : Label) : Outcome enc value :=
  match s.labelMap.find label with
  | none => (.ok (), s)
  | some idx =>
    let idxToRemove := toSize idx
    let idxLast := s.currentCount - 1
    let s := { s with
      labelMap := s.labelMap.del label
      offsetMap := s.offsetMap.del (s.cell cfg idxToRemove).offset }
    let moved : Outcome enc value :=
      if 0 < s.currentCount ∧ idxToRemove ≠ idxLast then
        (s.moveElement cfg idxToRemove idxLast).moveSparse idxToRemove
          idxLast
      else (.ok (), s)
    match moved with
    | (.error e, s) => (.error e, s)
    | (.ok _, s) =>
      (.ok (), { s with
        sparseIndex := s.sparseIndex.map SparseRowIndex.popBack
        currentCount := s.currentCount - 1 })

/-!
# Files
-/

/-- The flat file is written whatever happens to the sparse one; a sparse
index that refuses to save leaves the old file. -/
def save (s : FlatStore enc value)
    (dir : IndexDir enc value) :
    Except RuntimeError Unit × IndexDir enc value :=
  let dir := { dir with
    flat := some {
      capacity := s.capacity
      elementByteSize := cfg.elementByteSize
      currentCount := s.currentCount
      cells := s.buffer
      nextLogicalOffset := some s.nextLogicalOffset } }
  match s.sparseIndex with
  | none => (.ok (), dir)
  | some sparse =>
    match sparse.saveData with
    | .error e => (.error e, dir)
    | .ok (_, none) => (.ok (), dir)
    | .ok (_, some file) => (.ok (), { dir with sparse := some file })

/-- The two maps and the largest offset. -/
structure RebuildLoop where
  labelMap : Assoc Label Int
  offsetMap : Assoc Offset Int
  maxOffset : Offset

def RebuildLoop.body (s : FlatStore enc value)
    (st : RebuildLoop) (i : Nat) : RebuildLoop :=
  let c := s.cell cfg i
  { labelMap := st.labelMap.put c.label (toInt i)
    offsetMap := st.offsetMap.put c.offset (toInt i)
    maxOffset := if st.maxOffset < c.offset then c.offset else st.maxOffset }

def rebuildMaps (s : FlatStore enc value) :
    FlatStore enc value :=
  let st := (List.range s.currentCount).foldl (RebuildLoop.body cfg s)
    ⟨∅, ∅, 0⟩
  { s with
    labelMap := st.labelMap
    offsetMap := st.offsetMap
    nextLogicalOffset :=
      if 0 < s.currentCount ∧ s.nextLogicalOffset ≤ st.maxOffset.toNat then
        (st.maxOffset + 1).toNat
      else s.nextLogicalOffset }

def load (s : FlatStore enc value)
    (dir : IndexDir enc value) : Outcome enc value :=
  match dir.flat with
  | none => (.error "Failed to open index file", s)
  | some file =>
    let s := { s with currentCount := file.currentCount }
    if file.elementByteSize ≠ cfg.elementByteSize then
      (.error "Element size mismatch", s)
    else
      let s := s.resizeBuffer cfg file.capacity
      let s := { s with
        buffer := file.cells ++ s.buffer.drop file.cells.length
        nextLogicalOffset := file.nextLogicalOffset.getD 0 }
      let s := s.rebuildMaps cfg
      (.ok (), { s with
        sparseIndex := s.sparseIndex.map fun sparse =>
          (sparse.loadData dir.sparse).2 })

/-!
# Queries
-/

/-- The offset is returned as an `int`. -/
def getOffsetByLabel (s : FlatStore enc value)
    (label : Label) : Int :=
  match s.labelMap.find label with
  | some idx => toInt (s.cell cfg (toSize idx)).offset.toNat
  | none => -1

/-- The offset is given as an `int` and looked up as an unsigned number. -/
def getLabelByOffset (s : FlatStore enc value)
    (offset : Int) : Label :=
  match s.offsetMap.find (UInt32.ofNat (offset % 2 ^ 32).toNat) with
  | some idx => (s.cell cfg (toSize idx)).label
  | none => UInt64.ofNat (2 ^ 64 - 1)

end FlatStore
end Vector
end OpenViking
