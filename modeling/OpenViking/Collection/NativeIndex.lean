import OpenViking.Collection.Store
import Mathlib.Data.Finset.Lattice.Lemmas
import Mathlib.Data.Finset.SDiff

/-!
# The native index by its contract

Adding a point under a label replaces the vector of the label, takes the
postings of the old fields away and files those of the new ones.  Deleting a
label takes the postings of the old fields away with the vector; a label that
the index does not have is passed over.
-/

namespace OpenViking
namespace Collection

open Paths Function
open OpenViking.Vector

/-- How an index sees a row. -/
structure IndexConfig (value posting : Type) where
  normalizeVectorFlag : Bool
  normalizeVector : List value -> List value
  /-- The postings of a row's fields, converted for the index. -/
  postings : Str -> Finset posting
  /-- Empty fields are not parsed. -/
  postings_nil : postings [] = ∅

structure Point (term value : Type) where
  vector : List value
  sparseRawTerms : List term
  sparseValues : List value
deriving DecidableEq

structure NativeIndex (term value posting : Type) where
  points : Label -> Option (Point term value)
  postings : Label -> Finset posting
  updateTimestamp : Nat

variable {term value posting : Type} [DecidableEq posting]

/-- The point that the proxy hands to the index. -/
def IndexConfig.point (cfg : IndexConfig value posting) (vector : List value)
    (terms : List term) (values : List value) : Point term value where
  vector :=
    if cfg.normalizeVectorFlag && !vector.isEmpty then
      cfg.normalizeVector vector
    else vector
  sparseRawTerms := if terms.isEmpty || values.isEmpty then [] else terms
  sparseValues := if terms.isEmpty || values.isEmpty then [] else values

namespace NativeIndex

def empty (timestamp : Nat) : NativeIndex term value posting where
  points := fun _ => none
  postings := fun _ => ∅
  updateTimestamp := timestamp

def addOne (cfg : IndexConfig value posting)
    (n : NativeIndex term value posting) (data : DeltaRecord term value) :
    NativeIndex term value posting :=
  { n with
    points := update n.points data.label
      (some (cfg.point data.vector data.sparseRawTerms data.sparseValues))
    postings := update n.postings data.label
      ((n.postings data.label \ cfg.postings data.oldFields) ∪
        cfg.postings data.fields) }

def deleteOne (cfg : IndexConfig value posting)
    (n : NativeIndex term value posting) (data : DeltaRecord term value) :
    NativeIndex term value posting :=
  match n.points data.label with
  | none => n
  | some _ =>
    { n with
      points := update n.points data.label none
      postings := update n.postings data.label
        (n.postings data.label \ cfg.postings data.oldFields) }

/-- `add_data` finds every label it has just added, so a call with any data
moves the timestamp. -/
def upsertData (cfg : IndexConfig value posting)
    (n : NativeIndex term value posting) (clock : Nat)
    (deltas : List (DeltaRecord term value)) :
    NativeIndex term value posting :=
  { deltas.foldl (addOne cfg) n with
    updateTimestamp := if deltas.isEmpty then n.updateTimestamp else clock }

/-- `delete_data` moves the timestamp if one of the labels was there. -/
def deleteData (cfg : IndexConfig value posting)
    (n : NativeIndex term value posting) (clock : Nat)
    (deltas : List (DeltaRecord term value)) :
    NativeIndex term value posting :=
  { deltas.foldl (deleteOne cfg) n with
    updateTimestamp :=
      if deltas.any fun d => (n.points d.label).isSome then clock
      else n.updateTimestamp }

/-- The record of a candidate that a new index is built from. -/
def initialDelta (data : CandidateData term value) : DeltaRecord term value :=
  Store.upsertDelta data []

def build (cfg : IndexConfig value posting) (timestamp clock : Nat)
    (rows : List (CandidateData term value)) : NativeIndex term value posting :=
  (empty timestamp).upsertData cfg clock (rows.map initialDelta)

/-!
# One label
-/

def rowPoint (cfg : IndexConfig value posting)
    (data : CandidateData term value) : Point term value :=
  cfg.point data.vector data.sparseRawTerms data.sparseValues

def FollowsAt (cfg : IndexConfig value posting)
    (n : NativeIndex term value posting) (s : Store term value)
    (label : Label) : Prop :=
  n.points label = (s.cands.find label).map (rowPoint cfg) ∧
    n.postings label = cfg.postings (s.oldFields label)

/-- The labels of the index are the keys of the candidates table, each with
the vector and the postings of its stored row. -/
def Follows (cfg : IndexConfig value posting)
    (n : NativeIndex term value posting) (s : Store term value) : Prop :=
  forall label, FollowsAt cfg n s label

variable {cfg : IndexConfig value posting}
  {n m : NativeIndex term value posting} {data : DeltaRecord term value}
  {deltas : List (DeltaRecord term value)} {label : Label} {clock : Nat}

/-- Two indexes agree on a label. -/
def SameAt (n m : NativeIndex term value posting) (label : Label) : Prop :=
  n.points label = m.points label ∧ n.postings label = m.postings label

omit [DecidableEq posting] in
theorem SameAt.refl (n : NativeIndex term value posting) (label : Label) :
    SameAt n n label :=
  ⟨rfl, rfl⟩

omit [DecidableEq posting] in
theorem SameAt.trans {k : NativeIndex term value posting}
    (h : SameAt n m label) (h' : SameAt m k label) : SameAt n k label :=
  ⟨h.1.trans h'.1, h.2.trans h'.2⟩

omit [DecidableEq posting] in
theorem SameAt.symm (h : SameAt n m label) : SameAt m n label :=
  ⟨h.1.symm, h.2.symm⟩

theorem addOne_other (h : label ≠ data.label) :
    SameAt (addOne cfg n data) n label := by
  constructor
  · exact update_of_ne h ..
  · exact update_of_ne h ..

theorem deleteOne_other (h : label ≠ data.label) :
    SameAt (deleteOne cfg n data) n label := by
  rw [deleteOne]
  cases n.points data.label with
  | none => exact SameAt.refl n label
  | some point =>
    constructor
    · exact update_of_ne h ..
    · exact update_of_ne h ..

variable
  {one : NativeIndex term value posting -> DeltaRecord term value -> NativeIndex term value posting}

omit [DecidableEq posting] in
theorem foldl_other
    (hone : forall (n : NativeIndex term value posting)
      (data : DeltaRecord term value), label ≠ data.label ->
        SameAt (one n data) n label)
    (h : label ∉ deltas.map DeltaRecord.label) :
    SameAt (deltas.foldl one n) n label := by
  induction deltas generalizing n with
  | nil => exact SameAt.refl n label
  | cons first rest ih =>
    rw [List.map_cons, List.mem_cons, not_or] at h
    exact (ih h.2).trans (hone n first h.1)

theorem upsertData_other (h : label ∉ deltas.map DeltaRecord.label) :
    SameAt (n.upsertData cfg clock deltas) n label :=
  foldl_other (fun _ _ => addOne_other) h

theorem deleteData_other (h : label ∉ deltas.map DeltaRecord.label) :
    SameAt (n.deleteData cfg clock deltas) n label :=
  foldl_other (fun _ _ => deleteOne_other) h

theorem addOne_self :
    (addOne cfg n data).points data.label =
        some (cfg.point data.vector data.sparseRawTerms data.sparseValues) ∧
      (addOne cfg n data).postings data.label =
        (n.postings data.label \ cfg.postings data.oldFields) ∪
          cfg.postings data.fields :=
  ⟨update_self .., update_self ..⟩

/-- The old fields are those the index has filed for the label. -/
def OldFiled (cfg : IndexConfig value posting)
    (n : NativeIndex term value posting) (data : DeltaRecord term value) :
    Prop :=
  n.postings data.label = cfg.postings data.oldFields

/-- A label without a point has no postings. -/
def Clean (n : NativeIndex term value posting) (label : Label) : Prop :=
  n.points label = none -> n.postings label = ∅

theorem deleteOne_self (hclean : n.Clean data.label)
    (h : OldFiled cfg n data) :
    (deleteOne cfg n data).points data.label = none ∧
      (deleteOne cfg n data).postings data.label = ∅ := by
  rw [deleteOne]
  cases hpoint : n.points data.label with
  | none => exact ⟨hpoint, hclean hpoint⟩
  | some point =>
    constructor
    · exact update_self ..
    · show update n.postings data.label _ data.label = ∅
      rw [update_self, h, Finset.sdiff_self]

theorem deleteOne_absent (h : n.points data.label = none) :
    deleteOne cfg n data = n := by
  rw [deleteOne, h]

/-!
# One label in a batch
-/

theorem foldl_deleteOne_gone (hpoint : n.points label = none)
    (hpostings : n.postings label = ∅) :
    (deltas.foldl (deleteOne cfg) n).points label = none ∧
      (deltas.foldl (deleteOne cfg) n).postings label = ∅ := by
  induction deltas generalizing n with
  | nil => exact ⟨hpoint, hpostings⟩
  | cons first rest ih =>
    rw [List.foldl_cons]
    by_cases hfirst : first.label = label
    · rw [deleteOne_absent (hfirst ▸ hpoint)]
      exact ih hpoint hpostings
    · have hsame : SameAt (deleteOne cfg n first) n label :=
        deleteOne_other (Ne.symm hfirst)
      exact ih (hsame.1.trans hpoint) (hsame.2.trans hpostings)

/-- Every label of a batch of deletions whose old fields are right is gone. -/
theorem foldl_deleteOne (hclean : n.Clean label)
    (hmem : label ∈ deltas.map DeltaRecord.label)
    (hold : forall d, d ∈ deltas -> d.label = label ->
      n.postings label = cfg.postings d.oldFields) :
    (deltas.foldl (deleteOne cfg) n).points label = none ∧
      (deltas.foldl (deleteOne cfg) n).postings label = ∅ := by
  induction deltas generalizing n with
  | nil => cases hmem
  | cons first rest ih =>
    rw [List.foldl_cons]
    by_cases hfirst : first.label = label
    · have hself : (deleteOne cfg n first).points first.label = none ∧
          (deleteOne cfg n first).postings first.label = ∅ := by
        apply deleteOne_self
        · rw [hfirst]
          exact hclean
        · rw [OldFiled, hfirst]
          exact hold first List.mem_cons_self hfirst
      rw [hfirst] at hself
      exact foldl_deleteOne_gone hself.1 hself.2
    · have hsame : SameAt (deleteOne cfg n first) n label :=
        deleteOne_other (Ne.symm hfirst)
      apply ih
      · intro hnone
        rw [hsame.2]
        exact hclean (hsame.1 ▸ hnone)
      · rcases List.mem_cons.mp hmem with heq | hrest
        · exact absurd heq.symm hfirst
        · exact hrest
      · intro d hd hlabel
        rw [hsame.2]
        exact hold d (List.mem_cons_of_mem _ hd) hlabel

/-!
# Two indexes that agree on a label
-/

theorem addOne_sameAt (h : SameAt n m label) (data : DeltaRecord term value) :
    SameAt (addOne cfg n data) (addOne cfg m data) label := by
  by_cases heq : label = data.label
  · cases heq
    refine ⟨addOne_self.1.trans addOne_self.1.symm, ?_⟩
    rw [addOne_self.2, addOne_self.2, h.2]
  · exact ((addOne_other heq).trans h).trans (addOne_other heq).symm

theorem deleteOne_sameAt (h : SameAt n m label)
    (data : DeltaRecord term value) :
    SameAt (deleteOne cfg n data) (deleteOne cfg m data) label := by
  by_cases heq : label = data.label
  · cases heq
    cases hpoint : m.points data.label with
    | none =>
      rw [deleteOne_absent hpoint, deleteOne_absent (h.1.trans hpoint)]
      exact h
    | some point =>
      rw [deleteOne, deleteOne, hpoint, h.1.trans hpoint]
      constructor
      · show update n.points _ none _ = update m.points _ none _
        rw [update_self, update_self]
      · show update n.postings _ _ _ = update m.postings _ _ _
        rw [update_self, update_self, h.2]
  · exact ((deleteOne_other heq).trans h).trans (deleteOne_other heq).symm

omit [DecidableEq posting] in
theorem foldl_sameAt
    (hone : forall (n m : NativeIndex term value posting)
      (data : DeltaRecord term value), SameAt n m label ->
        SameAt (one n data) (one m data) label)
    (h : SameAt n m label) :
    SameAt (deltas.foldl one n) (deltas.foldl one m) label := by
  induction deltas generalizing n m with
  | nil => exact h
  | cons first rest ih => exact ih (hone n m first h)

theorem upsertData_sameAt {clock' : Nat} (h : SameAt n m label) :
    SameAt (n.upsertData cfg clock deltas) (m.upsertData cfg clock' deltas)
      label :=
  foldl_sameAt (fun _ _ data hsame => addOne_sameAt hsame data) h

theorem deleteData_sameAt {clock' : Nat} (h : SameAt n m label) :
    SameAt (n.deleteData cfg clock deltas) (m.deleteData cfg clock' deltas)
      label :=
  foldl_sameAt (fun _ _ data hsame => deleteOne_sameAt hsame data) h

omit [DecidableEq posting] in
theorem FollowsAt.of_sameAt {s : Store term value} (h : SameAt n m label)
    (hfollows : FollowsAt cfg m s label) : FollowsAt cfg n s label :=
  ⟨h.1.trans hfollows.1, h.2.trans hfollows.2⟩

end NativeIndex
end Collection
end OpenViking
