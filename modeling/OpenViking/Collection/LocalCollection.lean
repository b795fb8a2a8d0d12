import OpenViking.Collection.NativeIndex

/-!
# A local collection with one index

A call reads and writes the store in one batch, and hands the delta records of
the batch to the index.  A call that raises does so before its batch, and
leaves both as they were.
-/

namespace OpenViking
namespace Collection

open Paths
open OpenViking.Vector

/-- Validated data, as `_write_data_list` takes them apart. -/
structure Data (key term value : Type) where
  autoId : Option Label
  primaryKey : key
  vector : List value
  sparse : List (term × value)
  /-- What is left, dumped as JSON. -/
  fields : Str

inductive CallError (key : Type) where
  | invalidData
  | primaryKeyRequired
  | recordNotFound (keys : List key)
  | serialize (e : SerializeError)

/-- What a collection is made with: the schema's validation and the hash of
primary keys. -/
structure CollectionConfig (raw key term value posting : Type) where
  index : IndexConfig value posting
  /-- `str_to_uint64(str(key))`, or `int(key)` without a primary key. -/
  labelOf : key -> Label
  rawKey : raw -> Option key
  /-- The data processor; it generates the id of a row without one. -/
  validateAndProcess : raw -> Option (Data key term value)
  /-- The stored fields, updated with the given ones. -/
  merged : CandidateData term value -> raw -> raw

structure LocalCollection (term value posting : Type) where
  store : Store term value
  index : NativeIndex term value posting

/-- The readings of the clock that a call takes. -/
structure Clock where
  base : Nat
  now : Nat
  applied : Nat

inductive Call (raw key : Type) where
  | upsertData (rawDataList : List raw) (ttl : Int) (clock : Clock)
  | updateData (rawDataList : List raw) (clock : Clock)
  | deleteData (primaryKeys : List key) (clock : Clock)
  | expireTimeoutData (clock : Clock)

def Call.clock {raw key : Type} : Call raw key -> Clock
  | .upsertData _ _ clock => clock
  | .updateData _ clock => clock
  | .deleteData _ clock => clock
  | .expireTimeoutData clock => clock

variable {raw key term value posting : Type} [DecidableEq posting]

namespace CollectionConfig

variable (cfg : CollectionConfig raw key term value posting)

def row (data : Data key term value) : CandidateData term value where
  label := data.autoId.getD (cfg.labelOf data.primaryKey)
  vector := data.vector
  sparseRawTerms := data.sparse.map Prod.fst
  sparseValues := data.sparse.map Prod.snd
  fields := data.fields
  expireNsTs := 0

/-- `_validate_raw_data_list` and the rows made of what it returns. -/
def rows (rawDataList : List raw) :
    Except (CallError key) (List (CandidateData term value)) :=
  match rawDataList.mapM cfg.validateAndProcess with
  | none => .error .invalidData
  | some dataList => .ok (dataList.map cfg.row)

/-- The given data over the stored rows. -/
def mergedList (s : Store term value) (rawDataList : List raw) :
    Except (CallError key) (List raw) :=
  match rawDataList.mapM cfg.rawKey with
  | none => .error .primaryKeyRequired
  | some keys =>
    let missing := keys.filter fun k =>
      (s.cands.find (cfg.labelOf k)).isNone
    if missing.isEmpty then
      .ok (List.zipWith
        (fun k data =>
          match s.cands.find (cfg.labelOf k) with
          | some stored => cfg.merged stored data
          | none => data) keys rawDataList)
    else .error (.recordNotFound missing)

end CollectionConfig

namespace LocalCollection

variable (cfg : CollectionConfig raw key term value posting)

def createIndex
    (s : Store term value) (timestamp clock : Nat) :
    LocalCollection term value posting where
  store := s
  index := NativeIndex.build cfg.index timestamp clock s.getAllCandsData

/-- The batch of `_write_data_list`. -/
def writeRows
    (c : LocalCollection term value posting)
    (rows : List (CandidateData term value)) (ttl : Int) (clock : Clock) :
    Except (CallError key) (LocalCollection term value posting) :=
  match c.store.addCandsData rows ttl true clock.base clock.now with
  | .error e => .error (.serialize e)
  | .ok (deltas, store) =>
    .ok ⟨store, c.index.upsertData cfg.index clock.applied deltas⟩

def deleteLabels
    (c : LocalCollection term value posting) (labels : List Label)
    (clock : Clock) : LocalCollection term value posting :=
  let batch := c.store.deleteData labels true clock.base
  ⟨batch.2, c.index.deleteData cfg.index clock.applied batch.1⟩

def expireTimeoutData
    (c : LocalCollection term value posting) (clock : Clock) :
    LocalCollection term value posting :=
  let batch := c.store.expireData clock.now clock.base
  ⟨batch.2, c.index.deleteData cfg.index clock.applied batch.1⟩

/-- The rows and the lifetime that a call hands to `_write_data_list`. -/
def written
    (c : LocalCollection term value posting) :
    Call raw key ->
      Except (CallError key) (List (CandidateData term value) × Int)
  | .upsertData rawDataList ttl _ =>
    (cfg.rows rawDataList).map fun rows => (rows, ttl)
  | .updateData rawDataList _ =>
    match cfg.mergedList c.store rawDataList with
    | .error e => .error e
    | .ok rawDataList => (cfg.rows rawDataList).map fun rows => (rows, 0)
  | .deleteData _ _ => .ok ([], 0)
  | .expireTimeoutData _ => .ok ([], 0)

def call
    (c : LocalCollection term value posting) :
    Call raw key -> Except (CallError key) (LocalCollection term value posting)
  | .upsertData rawDataList ttl clock =>
    (c.written cfg (.upsertData rawDataList ttl clock)).bind
      fun written => c.writeRows cfg written.1 written.2 clock
  | .updateData rawDataList clock =>
    (c.written cfg (.updateData rawDataList clock)).bind
      fun written => c.writeRows cfg written.1 written.2 clock
  | .deleteData primaryKeys clock =>
    .ok (c.deleteLabels cfg (primaryKeys.map cfg.labelOf) clock)
  | .expireTimeoutData clock => .ok (c.expireTimeoutData cfg clock)

def step
    (c : LocalCollection term value posting) (call : Call raw key) :
    LocalCollection term value posting :=
  match c.call cfg call with
  | .error _ => c
  | .ok c => c

def run
    (c : LocalCollection term value posting) (calls : List (Call raw key)) :
    LocalCollection term value posting :=
  calls.foldl (step cfg) c

end LocalCollection
end Collection
end OpenViking
