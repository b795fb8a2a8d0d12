import OpenViking.Scalar.FilterOps
import OpenViking.Scalar.Documents
import OpenViking.Vector.FlatStoreCorrect

/-!
# The index manager

The manager keeps a vector store and a scalar index in step: the store gives a
label its logical offset, and the scalar index files the fields of the label
under that offset.
-/

namespace OpenViking
namespace Index

open Paths Scalar
open OpenViking.Vector

variable {term vec enc value num : Type} [LinearOrder num]

structure AddDataRequest (term vec value : Type) where
  label : Label
  vector : Option vec
  sparseRawTerms : List term
  sparseValues : List value
  fields : Document
  oldFields : Document

structure DeleteDataRequest where
  label : Label
  oldFields : Document

/-- What the manager is made with besides the store's own configuration; the
least and the greatest finite double stand for a missing bound. -/
structure ManagerConfig (term vec enc num : Type) where
  store : Vector.Config term vec enc
  numbers : NumberReader num
  lowest : num
  largest : num
  arith : Arith num
  regex : RegexEngine

structure IndexManager (enc value num : Type) where
  vectorIndex : FlatStore enc value
  scalarIndex : FieldBitmapGroupSet num

namespace IndexManager

/-- `init_from_json` with a flat index and scalar fields. -/
def new (cfg : ManagerConfig term vec enc num) (maxElementCount : Nat)
    (items : Assoc Str FieldType) : IndexManager enc value num where
  vectorIndex := FlatStore.new cfg.store maxElementCount
  scalarIndex := ScalarIndex.new items

variable (cfg : ManagerConfig term vec enc num)

def offsetOf
    (m : IndexManager enc value num) (label : Label) : Int :=
  m.vectorIndex.getOffsetByLabel cfg.store label

/-- What a call threw, if it did, and what it left behind. -/
abbrev Outcome (enc value num : Type) : Type :=
  Except RuntimeError Unit × IndexManager enc value num

/-- One element of `add_data`. -/
def addOne [Add value] [Zero value] (cfg : ManagerConfig term vec enc num)
    (m : IndexManager enc value num)
    (data : AddDataRequest term vec value) : Outcome enc value num :=
  match m.vectorIndex.addPoint cfg.store data.vector data.label
      (some ⟨some data.sparseRawTerms, data.sparseValues⟩) with
  | (.error e, store) => (.error e, { m with vectorIndex := store })
  | (.ok _, store) =>
    let m := { m with vectorIndex := store }
    let offset := m.offsetOf cfg data.label
    if offset < 0 then (.ok (), m)
    else
      (.ok (), { m with
        scalarIndex := ScalarIndex.addRowData m.scalarIndex offset.toNat
          (FieldsDict.parseFromJson cfg.numbers data.fields)
          (FieldsDict.parseFromJson cfg.numbers data.oldFields) })

/-- One element of `delete_data`. -/
def deleteOne [Zero value] (cfg : ManagerConfig term vec enc num)
    (m : IndexManager enc value num) (data : DeleteDataRequest) :
    Outcome enc value num :=
  let offset := m.offsetOf cfg data.label
  if offset < 0 then (.ok (), m)
  else
    let m := { m with
      scalarIndex := ScalarIndex.deleteRowData m.scalarIndex offset.toNat
        (FieldsDict.parseFromJson cfg.numbers data.oldFields) }
    match m.vectorIndex.removePoint cfg.store data.label with
    | (result, store) => (result, { m with vectorIndex := store })

/-- The elements of a call in order, up to one that throws. -/
def eachOf {request : Type}
    (one : IndexManager enc value num -> request -> Outcome enc value num)
    (m : IndexManager enc value num) :
    List request -> Outcome enc value num
  | [] => (.ok (), m)
  | data :: rest =>
    match one m data with
    | (.error e, m) => (.error e, m)
    | (.ok _, m) => eachOf one m rest

def addData [Add value] [Zero value] (cfg : ManagerConfig term vec enc num)
    (m : IndexManager enc value num)
    (dataList : List (AddDataRequest term vec value)) :
    Outcome enc value num :=
  eachOf (addOne cfg) m dataList

def deleteData [Zero value] (cfg : ManagerConfig term vec enc num)
    (m : IndexManager enc value num)
    (dataList : List DeleteDataRequest) : Outcome enc value num :=
  eachOf (deleteOne cfg) m dataList

/-!
# Filters
-/

/-- The converter that `init_from_json` registers. -/
def convertLabels
    (m : IndexManager enc value num) (labels : List Nat) :
    Option (List Nat) :=
  some (labels.filterMap fun label =>
    let offset := m.offsetOf cfg (UInt64.ofNat label)
    if offset < 0 then none else some offset.toNat)

def filterEnv
    (m : IndexManager enc value num) : FilterEnv num where
  arith := cfg.arith
  regex := cfg.regex
  convert := m.convertLabels cfg

/-- The name of an operator, as far as a fold asks for it. -/
def opName : FilterOp num -> ResOp
  | .logic op _ _ => op
  | _ => .other

def calculateFilterBitmap
    (m : IndexManager enc value num) (filter : FilterOp num) : BitmapPtr :=
  filter.calcBitmap (m.filterEnv cfg) m.scalarIndex none (opName filter)

end IndexManager

/-!
# Sessions
-/

inductive Call (term vec value : Type) where
  | addData (dataList : List (AddDataRequest term vec value))
  | deleteData (dataList : List DeleteDataRequest)

namespace IndexManager

variable [Add value] [Zero value]

def step (cfg : ManagerConfig term vec enc num)
    (m : IndexManager enc value num) :
    Call term vec value -> IndexManager enc value num
  | .addData dataList => (m.addData cfg dataList).2
  | .deleteData dataList => (m.deleteData cfg dataList).2

def run (cfg : ManagerConfig term vec enc num)
    (m : IndexManager enc value num) (calls : List (Call term vec value)) :
    IndexManager enc value num :=
  calls.foldl (step cfg) m

end IndexManager

/-!
# Records of live labels

What the manager is for: a live label has an offset and the fields that were
last stored for it.  The records are what a caller knows who gives the old
fields of every label as they were stored.
-/

variable {term vec enc value num : Type}

/-- One element of a call. -/
inductive Request (term vec value : Type) where
  | add (data : AddDataRequest term vec value)
  | delete (data : DeleteDataRequest)

namespace Request

def label : Request term vec value -> Label
  | .add data => data.label
  | .delete data => data.label

def oldFields : Request term vec value -> Document
  | .add data => data.oldFields
  | .delete data => data.oldFields

/-- The terms of the sparse data of a request. -/
def terms (cfg : Vector.Config term vec enc) :
    Request term vec value -> List TermKey
  | .add data =>
    callTerms cfg (some ⟨some data.sparseRawTerms, data.sparseValues⟩)
  | .delete _ => []

end Request

/-- The store accepts the sparse data of the request. -/
def AddDataRequest.accepted [Add value] (cfg : Vector.Config term vec enc)
    (data : AddDataRequest term vec value) : Bool :=
  (Ledger.givenSparse cfg
    (some ⟨some data.sparseRawTerms, data.sparseValues⟩)).isSome

/-- The elements of a call that take effect: a call ends at the first one the
store refuses. -/
def Call.requests [Add value] (cfg : Vector.Config term vec enc) :
    Call term vec value -> List (Request term vec value)
  | .addData dataList =>
    (dataList.takeWhile fun data => data.accepted cfg).map .add
  | .deleteData dataList => dataList.map .delete

/-- The requests of a session in order. -/
def requestsOf [Add value] (cfg : Vector.Config term vec enc)
    (calls : List (Call term vec value)) :
    List (Request term vec value) :=
  calls.flatMap (Call.requests cfg)

structure Records (enc value : Type) where
  catalog : Catalog enc value
  fields : Label -> Option (Document)

namespace Records

def empty : Records enc value where
  catalog := Catalog.empty
  fields := fun _ => none

variable [Add value]

def step (cfg : Vector.Config term vec enc) (r : Records enc value) :
    Request term vec value -> Records enc value
  | .add data =>
    { catalog := r.catalog.addGiven cfg data.vector data.label
        (some ⟨some data.sparseRawTerms, data.sparseValues⟩)
      fields := Function.update r.fields data.label (some data.fields) }
  | .delete data =>
    { catalog := r.catalog.remove data.label
      fields := Function.update r.fields data.label none }

def run (cfg : Vector.Config term vec enc) (r : Records enc value)
    (requests : List (Request term vec value)) : Records enc value :=
  requests.foldl (step cfg) r

/-- Every request gives the old fields as they were stored, and none for a
label that is not alive. -/
def OldAsStored (cfg : Vector.Config term vec enc)
    (r : Records enc value) :
    List (Request term vec value) -> Prop
  | [] => True
  | request :: rest =>
    request.oldFields = (r.fields request.label).getD [] ∧
      OldAsStored cfg (r.step cfg request) rest

end Records

end Index
end OpenViking
