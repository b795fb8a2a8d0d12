import OpenViking.Collection.LocalCollection
import OpenViking.Common.Interleaving

/-!
# Concurrent writers

A mutation of a collection is a row of steps: it reads the old rows, takes a
reading of the clock, commits one batch to the store, and hands the delta
records of the batch to the index.  The steps of different writers interleave.
-/

namespace OpenViking
namespace Collection

open Paths
open OpenViking.Vector

inductive Mutation (term value : Type) where
  | write (rows : List (CandidateData term value)) (ttl : Int)
  | delete (labels : List Label)
  | expire

/-- A mutation whose delta records are made. -/
inductive Prepared (term value : Type) where
  | write (rows : List (CandidateData term value)) (ttl : Int)
      (deltas : List (DeltaRecord term value))
  | delete (labels : List Label) (deltas : List (DeltaRecord term value))
  | expire (swept : List (Str × Label))
      (rows : List (CandidateData term value))

/-- How far a writer has come. -/
inductive Phase (term value : Type) where
  | idle
  | entered (m : Mutation term value)
  | scanned (now : Nat) (swept : List (Str × Label))
  | read (p : Prepared term value)
  | stamped (p : Prepared term value) (base : Nat)
  | stored (p : Prepared term value) (base : Nat)
  | applied (changed : Bool)

variable {term value posting : Type} [DecidableEq posting]

namespace Phase

/-- A mutation that has read the store and not written it. -/
def unstored : Phase term value -> Option (Prepared term value)
  | .read p => some p
  | .stamped p _ => some p
  | _ => none

/-- A mutation that the store has and the index has not. -/
def pending : Phase term value -> Option (Prepared term value)
  | .stored p _ => some p
  | _ => none

/-- A mutation between its read and its hand-over to the index. -/
def inFlight (phase : Phase term value) : Option (Prepared term value) :=
  phase.unstored.or phase.pending

end Phase

namespace Prepared

def deltas : Prepared term value -> List (DeltaRecord term value)
  | .write _ _ deltas => deltas
  | .delete _ deltas => deltas
  | .expire _ rows => Store.expiredDeltas rows

def labels (p : Prepared term value) : List Label :=
  p.deltas.map DeltaRecord.label

def commit (p : Prepared term value) (s : Store term value)
    (base now : Nat) : Store term value :=
  match p with
  | .write rows ttl deltas =>
    s.putRows ttl base deltas (Store.withExpiry ttl now rows)
  | .delete labels deltas => s.deleteRows base deltas labels
  | .expire swept rows => s.expireRows base swept rows

/-- Why the batch cannot be committed, if it cannot. -/
def serializeError (p : Prepared term value) (now : Nat) :
    Option SerializeError :=
  match p with
  | .write rows ttl _ =>
    (Store.withExpiry ttl now rows).findSome? CandidateData.serializeError
  | .delete _ _ => none
  | .expire _ _ => none

def apply (cfg : IndexConfig value posting) (p : Prepared term value)
    (n : NativeIndex term value posting) (clock : Nat) :
    NativeIndex term value posting :=
  match p with
  | .write _ _ deltas => n.upsertData cfg clock deltas
  | .delete _ deltas => n.deleteData cfg clock deltas
  | .expire _ rows => n.deleteData cfg clock (Store.expiredDeltas rows)

/-- A sweep that found nothing does not count as a change. -/
def changed : Prepared term value -> Bool
  | .write _ _ _ => true
  | .delete _ _ => true
  | .expire _ rows => !rows.isEmpty

end Prepared

structure Session (term value posting : Type) where
  store : Store term value
  index : NativeIndex term value posting
  writers : List (Phase term value)

inductive WriterStep (term value : Type) where
  | enter (i : Nat) (m : Mutation term value)
  | scan (i : Nat) (now : Nat)
  | read (i : Nat)
  | stamp (i : Nat) (base : Nat)
  | commit (i : Nat) (now : Nat)
  | apply (i : Nat) (clock : Nat)
  | leave (i : Nat)

namespace Session

def setPhase (x : Session term value posting) (i : Nat)
    (phase : Phase term value) : Session term value posting :=
  { x with writers := x.writers.set i phase }

/-- What the next read of a writer prepares. -/
def reading (x : Session term value posting) (i : Nat) :
    Option (Prepared term value) :=
  match x.writers[i]? with
  | some (.entered (.write rows ttl)) =>
    some (.write rows ttl (x.store.upsertDeltas rows))
  | some (.entered (.delete labels)) =>
    some (.delete labels (x.store.deleteDeltas labels))
  | some (.scanned now swept) =>
    some (.expire swept
      (x.store.expiredCandsData now (swept.map Prod.snd)))
  | _ => none

def ofWriter {α : Type} (x : Session term value posting)
    (f : Phase term value -> Option α) (i : Nat) : Option α :=
  x.writers[i]?.bind f

def step (cfg : IndexConfig value posting) (x : Session term value posting) :
    WriterStep term value -> Option (Session term value posting)
  | .enter i m =>
    match x.writers[i]? with
    | some .idle => some (x.setPhase i (.entered m))
    | _ => none
  | .scan i now =>
    match x.writers[i]? with
    | some (.entered .expire) =>
      some (x.setPhase i
        (.scanned now (beginToSeek x.store.ttl (decimal now))))
    | _ => none
  | .read i => (x.reading i).map fun p => x.setPhase i (.read p)
  | .stamp i base =>
    match x.writers[i]? with
    | some (.read p) => some (x.setPhase i (.stamped p base))
    | _ => none
  | .commit i now =>
    match x.writers[i]? with
    | some (.stamped p base) =>
      match p.serializeError now with
      | some _ => some (x.setPhase i (.applied true))
      | none =>
        some { x.setPhase i (.stored p base) with
          store := p.commit x.store base now }
    | _ => none
  | .apply i clock =>
    match x.writers[i]? with
    | some (.stored p _) =>
      some { x.setPhase i (.applied p.changed) with
        index := p.apply cfg x.index clock }
    | _ => none
  | .leave i =>
    match x.writers[i]? with
    | some (.applied _) => some (x.setPhase i .idle)
    | _ => none

end Session
end Collection
end OpenViking
