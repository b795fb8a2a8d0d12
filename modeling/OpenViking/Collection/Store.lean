import OpenViking.Common.Decimal
import OpenViking.Vector.FlatStore

/-!
# The store of a collection

The store keeps three tables: the candidates, the delta records that led to
them, and the times at which candidates expire.  The last two are ordered by
the text of their keys.
-/

namespace OpenViking
namespace Collection

open Paths
open OpenViking.Vector

structure CandidateData (term value : Type) where
  label : Label
  vector : List value
  sparseRawTerms : List term
  sparseValues : List value
  fields : Str
  expireNsTs : Nat
deriving DecidableEq

inductive DeltaType where
  | upsert
  | delete
deriving DecidableEq

structure DeltaRecord (term value : Type) where
  type : DeltaType
  label : Label
  vector : List value
  sparseRawTerms : List term
  sparseValues : List value
  fields : Str
  oldFields : Str
deriving DecidableEq

/-- A serialised row gives the length of a string in two bytes, and a number
in eight. -/
inductive SerializeError where
  | stringTooLong
  | numberTooLarge
deriving DecidableEq

variable {term value : Type}

def utf8Length (s : Str) : Nat :=
  (s.map Char.utf8Size).sum

def CandidateData.serializeError (data : CandidateData term value) :
    Option SerializeError :=
  if 65535 < utf8Length data.fields then some .stringTooLong
  else if 2 ^ 64 ≤ data.expireNsTs then some .numberTooLarge
  else none

structure Store (term value : Type) where
  cands : Assoc Label (CandidateData term value)
  delta : Assoc Str (DeltaRecord term value)
  ttl : Assoc Str Label

/-!
# Tables ordered by key
-/

/-- The entries of a table in the order of their keys. -/
def sorted {α : Type} (t : Assoc Str α) : List (Str × α) :=
  t.bindings.insertionSort fun a b => a.1 ≤ b.1

/-- The entries before a key. -/
def beginToSeek {α : Type} (t : Assoc Str α) (endKey : Str) :
    List (Str × α) :=
  (sorted t).filter fun b => b.1 < endKey

/-- The entries from a key on. -/
def seekToEnd {α : Type} (t : Assoc Str α) (startKey : Str) :
    List (Str × α) :=
  (sorted t).filter fun b => startKey ≤ b.1

theorem mem_sorted {α : Type} {t : Assoc Str α} {b : Str × α} :
    b ∈ sorted t <-> t.find b.1 = some b.2 := by
  rw [sorted, List.mem_insertionSort]
  exact Assoc.mem_bindings

theorem mem_beginToSeek {α : Type} {t : Assoc Str α} {endKey : Str}
    {b : Str × α} :
    b ∈ beginToSeek t endKey <-> t.find b.1 = some b.2 ∧ b.1 < endKey := by
  rw [beginToSeek, List.mem_filter, mem_sorted, decide_eq_true_eq]

theorem mem_seekToEnd {α : Type} {t : Assoc Str α} {startKey : Str}
    {b : Str × α} :
    b ∈ seekToEnd t startKey <->
      t.find b.1 = some b.2 ∧ startKey ≤ b.1 := by
  rw [seekToEnd, List.mem_filter, mem_sorted, decide_eq_true_eq]

namespace Store

def empty : Store term value where
  cands := ∅
  delta := ∅
  ttl := ∅

variable (s : Store term value)

/-- The fields of the stored row, and the empty text if there is none. -/
def oldFields (label : Label) : Str :=
  match s.cands.find label with
  | some data => data.fields
  | none => []

def getAllCandsData : List (CandidateData term value) :=
  s.cands.bindings.map Prod.snd

def getDeltaDataAfterTs (ts : Nat) :
    List (DeltaRecord term value) :=
  (seekToEnd s.delta (decimal ts)).map Prod.snd

/-!
# Delta records
-/

def upsertDelta (data : CandidateData term value) (old : Str) :
    DeltaRecord term value where
  type := .upsert
  label := data.label
  vector := data.vector
  sparseRawTerms := data.sparseRawTerms
  sparseValues := data.sparseValues
  fields := data.fields
  oldFields := old

def deleteDelta (label : Label) (old : Str) : DeltaRecord term value where
  type := .delete
  label := label
  vector := []
  sparseRawTerms := []
  sparseValues := []
  fields := []
  oldFields := old

/-- The records of a batch under consecutive nanoseconds. -/
def stamped (base : Nat) (deltas : List (DeltaRecord term value)) :
    List (Str × DeltaRecord term value) :=
  deltas.mapIdx fun i d => (decimal (base + i), d)

/-- The old rows are read before any row of the batch is written. -/
def upsertDeltas
    (rows : List (CandidateData term value)) : List (DeltaRecord term value) :=
  rows.map fun data => upsertDelta data (s.oldFields data.label)

def deleteDeltas (labels : List Label) :
    List (DeltaRecord term value) :=
  labels.map fun label => deleteDelta label (s.oldFields label)

/-!
# Batches
-/

def expiringAt (time : Nat) (data : CandidateData term value) :
    CandidateData term value :=
  { data with expireNsTs := time }

/-- All rows of a batch expire at one time. -/
def withExpiry (ttl : Int) (now : Nat)
    (rows : List (CandidateData term value)) :
    List (CandidateData term value) :=
  if 0 < ttl then rows.map (expiringAt (now + ttl.toNat * 1000000000))
  else rows

def putRows (ttl : Int) (base : Nat)
    (deltas : List (DeltaRecord term value))
    (rows : List (CandidateData term value)) : Store term value where
  cands := s.cands.putAll (rows.map fun data => (data.label, data))
  delta := s.delta.putAll (stamped base deltas)
  ttl :=
    if 0 < ttl then
      s.ttl.putAll (rows.map fun data => (decimal data.expireNsTs, data.label))
    else s.ttl

def deleteRows (base : Nat)
    (deltas : List (DeltaRecord term value)) (labels : List Label) :
    Store term value :=
  { s with
    cands := s.cands.delAll labels
    delta := s.delta.putAll (stamped base deltas) }

/-- What a batch returns, and the store after it. -/
abbrev Batch (term value : Type) : Type :=
  List (DeltaRecord term value) × Store term value

/-- `add_cands_data`; `base` and `now` are its two readings of the clock. -/
def addCandsData
    (rows : List (CandidateData term value)) (ttl : Int) (needDelta : Bool)
    (base now : Nat) : Except SerializeError (Batch term value) :=
  let deltas := if needDelta then s.upsertDeltas rows else []
  let rows := withExpiry ttl now rows
  match rows.findSome? CandidateData.serializeError with
  | some e => .error e
  | none => .ok (deltas, s.putRows ttl base deltas rows)

def deleteData (labels : List Label)
    (needDelta : Bool) (base : Nat) : Batch term value :=
  let deltas := if needDelta then s.deleteDeltas labels else []
  (deltas, s.deleteRows base deltas labels)

/-- The rows named by the expiry table that are not after `now`. -/
def expiredCandsData (now : Nat)
    (labels : List Label) : List (CandidateData term value) :=
  labels.filterMap fun label =>
    (s.cands.find label).filter fun data => data.expireNsTs ≤ now

def expiredDeltas (rows : List (CandidateData term value)) :
    List (DeltaRecord term value) :=
  rows.map fun data => deleteDelta data.label data.fields

def expireRows (base : Nat)
    (swept : List (Str × Label)) (rows : List (CandidateData term value)) :
    Store term value where
  cands := s.cands.delAll (rows.map CandidateData.label)
  delta := s.delta.putAll (stamped base (expiredDeltas rows))
  ttl := s.ttl.delAll (swept.map Prod.fst)

/-- `expire_data`; `now` and `base` are its two readings of the clock. -/
def expireData (now base : Nat) : Batch term value :=
  let swept := beginToSeek s.ttl (decimal now)
  let rows := s.expiredCandsData now (swept.map Prod.snd)
  (expiredDeltas rows, s.expireRows base swept rows)

variable {deltas : List (DeltaRecord term value)}

theorem mem_stamped {base : Nat} {b : Str × DeltaRecord term value} :
    b ∈ stamped base deltas <->
      exists i, deltas[i]? = some b.2 ∧ b.1 = decimal (base + i) := by
  rw [stamped, List.mem_mapIdx]
  constructor
  · intro h
    rcases h with ⟨i, hi, heq⟩
    rw [← heq]
    exact ⟨i, List.getElem?_eq_getElem hi, rfl⟩
  · intro h
    rcases h with ⟨i, hget, hkey⟩
    rcases List.getElem?_eq_some_iff.mp hget with ⟨hi, hd⟩
    refine ⟨i, hi, ?_⟩
    rw [hd, ← hkey]

theorem nodup_stamped_keys (base : Nat)
    (deltas : List (DeltaRecord term value)) :
    ((stamped base deltas).map Prod.fst).Nodup := by
  rw [stamped, List.Nodup, List.pairwise_map, List.pairwise_iff_getElem]
  intro i j hi hj hij heq
  rw [List.getElem_mapIdx, List.getElem_mapIdx] at heq
  have hsum := decimal_injective heq
  omega

theorem find_stamped (table : Assoc Str (DeltaRecord term value)) (base : Nat) {i : Nat}
    {d : DeltaRecord term value} (h : deltas[i]? = some d) :
    (table.putAll (stamped base deltas)).find (decimal (base + i)) =
      some d := by
  apply Assoc.find_putAll_of_mem table (nodup_stamped_keys base deltas)
  exact mem_stamped.mpr ⟨i, h, rfl⟩

/-- Every row is stored under its own label. -/
def Labelled : Prop :=
  forall label data, s.cands.find label = some data -> data.label = label

end Store
end Collection
end OpenViking
