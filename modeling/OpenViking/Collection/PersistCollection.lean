import OpenViking.Collection.Settled

/-!
# A collection on disk

A persistent index keeps snapshots of itself under the timestamp of its last
update; a snapshot counts once its marker is there.  After a crash the newest
snapshot is loaded, and the delta records from its timestamp on are replayed.
-/

namespace OpenViking
namespace Collection

open Paths
open OpenViking.Vector

/-- The directory of versions: a directory has a whole snapshot or part of
one. -/
structure VersionDir (term value posting : Type) where
  dirs : Assoc Nat (Option (NativeIndex term value posting))
  markers : List Nat

/-- Where `persist` is. -/
inductive Maintenance where
  | idle
  | checked
  | made (dir : Nat)
  | dumped (dir version : Nat)
  | moved (version : Nat)
  | cleaning (version : Nat)

structure PersistCollection (term value posting : Type) where
  session : Session term value posting
  disk : VersionDir term value posting
  maintenance : Maintenance
  nowVersion : Nat
  /-- The last reading of the clock. -/
  clock : Nat

inductive PersistStep (term value : Type) where
  | writer (l : WriterStep term value)
  | check
  | makeDir (now : Nat)
  | dump
  | move
  | writeDone
  | removePart (name : Nat)
  | removeDir (name : Nat)
  | removeMarker (name : Nat)
  | cleaned
  /-- A crash, and the start of the next process. -/
  | restart (now : Nat) (gap : Nat -> Nat)

variable {term value posting : Type} [DecidableEq posting]

def VersionDir.getNewestVersion (d : VersionDir term value posting) : Nat :=
  (d.markers.filter fun v => (d.dirs.find v).isSome).foldr max 0

/-!
# Recovery
-/

/-- The index and the last reading of the clock. -/
abbrev Replayed (term value posting : Type) : Type :=
  NativeIndex term value posting × Nat

/-- The next reading of a clock that is strictly increasing. -/
def nextReading (gap : Nat -> Nat) (last : Nat) : Nat :=
  last + 1 + gap last

variable (cfg : IndexConfig value posting)

def replayUpserts (gap : Nat -> Nat)
    (r : Replayed term value posting) (records : List (DeltaRecord term value)) :
    Replayed term value posting :=
  if records.isEmpty then r
  else (r.1.upsertData cfg (nextReading gap r.2) records, nextReading gap r.2)

def replayDeletes (gap : Nat -> Nat)
    (r : Replayed term value posting) (records : List (DeltaRecord term value)) :
    Replayed term value posting :=
  if records.isEmpty then r
  else (r.1.deleteData cfg (nextReading gap r.2) records, nextReading gap r.2)

/-- The loop of `_recover` over the delta records, with the records that it
has collected and not yet replayed. -/
def replayRecords (cfg : IndexConfig value posting) (gap : Nat -> Nat)
    (r : Replayed term value posting)
    (upsertList deleteList : List (DeltaRecord term value)) :
    List (DeltaRecord term value) -> Replayed term value posting
  | [] => replayDeletes cfg gap (replayUpserts cfg gap r upsertList) deleteList
  | data :: rest =>
    match data.type with
    | .upsert =>
      replayRecords cfg gap (replayDeletes cfg gap r deleteList)
        (upsertList ++ [data]) [] rest
    | .delete =>
      replayRecords cfg gap (replayUpserts cfg gap r upsertList) []
        (deleteList ++ [data]) rest

/-- `_recover` of an index that has a snapshot. -/
def recover
    (d : VersionDir term value posting) (s : Store term value) (now : Nat)
    (gap : Nat -> Nat) : Option (Replayed term value posting) :=
  match d.dirs.find d.getNewestVersion with
  | some (some snapshot) =>
    some (replayRecords cfg gap (snapshot, now) [] []
      (s.getDeltaDataAfterTs d.getNewestVersion))
  | _ => none

/-!
# Steps
-/

namespace PersistCollection

/-- The reading of the clock that a step of a writer takes. -/
def reading : WriterStep term value -> Option Nat
  | .stamp _ base => some base
  | .apply _ clock => some clock
  | _ => none

def writerStep (cfg : IndexConfig value posting)
    (x : PersistCollection term value posting) (l : WriterStep term value) :
    Option (PersistCollection term value posting) :=
  match reading l with
  | none => (x.session.step cfg l).map fun session =>
    { x with session := session }
  | some now =>
    if x.clock < now then
      (x.session.step cfg l).map fun session =>
        { x with session := session, clock := now }
    else none

/-- The names that `_clean_index` keeps. -/
def keeps (x : PersistCollection term value posting) (version name : Nat) :
    Bool :=
  name == x.nowVersion || name == version

def step (cfg : IndexConfig value posting)
    (x : PersistCollection term value posting) :
    PersistStep term value -> Option (PersistCollection term value posting)
  | .writer l => x.writerStep cfg l
  | .check =>
    match x.maintenance with
    | .idle =>
      if x.disk.getNewestVersion < x.session.index.updateTimestamp then
        some { x with maintenance := .checked }
      else some x
    | _ => none
  | .makeDir now =>
    match x.maintenance with
    | .checked =>
      if x.clock < now then
        some { x with
          disk := { x.disk with dirs := x.disk.dirs.put now none }
          maintenance := .made now
          clock := now }
      else none
    | _ => none
  | .dump =>
    match x.maintenance with
    | .made dir =>
      some { x with
        disk := { x.disk with
          dirs := x.disk.dirs.put dir (some x.session.index) }
        maintenance := .dumped dir x.session.index.updateTimestamp }
    | _ => none
  | .move =>
    match x.maintenance with
    | .dumped dir version =>
      match x.disk.dirs.find dir with
      | none => none
      | some content =>
        some { x with
          -- an existing directory would get the new one inside it
          disk := { x.disk with
            dirs :=
              match x.disk.dirs.find version with
              | none => (x.disk.dirs.del dir).put version content
              | some _ => x.disk.dirs.del dir }
          maintenance := .moved version }
    | _ => none
  | .writeDone =>
    match x.maintenance with
    | .moved version =>
      some { x with
        disk := { x.disk with markers := version :: x.disk.markers }
        maintenance := .cleaning version }
    | _ => none
  | .removePart name =>
    match x.maintenance with
    | .cleaning version =>
      if x.keeps version name then none
      else if (x.disk.dirs.find name).isSome then
        some { x with
          disk := { x.disk with dirs := x.disk.dirs.put name none } }
      else none
    | _ => none
  | .removeDir name =>
    match x.maintenance with
    | .cleaning version =>
      if x.keeps version name then none
      else some { x with
        disk := { x.disk with dirs := x.disk.dirs.del name } }
    | _ => none
  | .removeMarker name =>
    match x.maintenance with
    | .cleaning version =>
      if x.keeps version name then none
      else some { x with
        disk := { x.disk with
          markers := x.disk.markers.filter fun v => v ≠ name } }
    | _ => none
  | .cleaned =>
    match x.maintenance with
    | .cleaning _ => some { x with maintenance := .idle }
    | _ => none
  | .restart now gap =>
    if x.clock < now then
      (recover cfg x.disk x.session.store now gap).map fun r =>
        { session :=
            { store := x.session.store
              index := r.1
              writers := x.session.writers.map fun _ => .idle }
          disk := x.disk
          maintenance := .idle
          nowVersion := x.disk.getNewestVersion
          clock := r.2 }
    else none

/-- A collection whose index has just been created over a store. -/
def start (cfg : IndexConfig value posting) (s : Store term value)
    (version clock writers : Nat) : PersistCollection term value posting where
  session :=
    { store := s
      index := NativeIndex.build cfg version clock s.getAllCandsData
      writers := List.replicate writers .idle }
  disk :=
    { dirs := (∅ : Assoc Nat _).put
        (NativeIndex.build cfg version clock s.getAllCandsData).updateTimestamp
        (some (NativeIndex.build cfg version clock s.getAllCandsData))
      markers :=
        [(NativeIndex.build cfg version clock
          s.getAllCandsData).updateTimestamp] }
  maintenance := .idle
  nowVersion :=
    (NativeIndex.build cfg version clock s.getAllCandsData).updateTimestamp
  clock := clock

end PersistCollection
end Collection
end OpenViking
