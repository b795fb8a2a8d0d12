import OpenViking.Collection.Settled

/-!
# Index rebuilds

Writers share the mutation barrier.  A rebuild takes the generation, scans the
store, builds an index over what it found, and publishes it if no mutation has
ended since; publication is exclusive.
-/

namespace OpenViking
namespace Collection

open Paths
open OpenViking.Vector

/-- `_IndexMutationBarrier`. -/
structure Barrier where
  activeMutations : Nat
  publisher : Bool
  waitingPublishers : Nat
  generation : Nat

/-- How far a rebuild has come; `old` is the index that it replaces. -/
inductive Rebuild (term value posting : Type) where
  | idle
  | started (old : Nat)
  | snapped (old generation : Nat)
  | scanned (old generation : Nat) (rows : List (CandidateData term value))
  | built (old generation : Nat) (index : NativeIndex term value posting)
  | waiting (old generation : Nat) (index : NativeIndex term value posting)
  | exclusive (old generation : Nat) (index : NativeIndex term value posting)
  | finished

structure Shared (term value posting : Type) where
  session : Session term value posting
  barrier : Barrier
  /-- Which index is published. -/
  indexId : Nat
  rebuilds : List (Rebuild term value posting)

inductive SharedStep (term value : Type) where
  | writer (l : WriterStep term value)
  | start (j : Nat)
  | snapshotGeneration (j : Nat)
  | scan (j : Nat)
  | build (j : Nat) (timestamp clock : Nat)
  | await (j : Nat)
  | acquire (j : Nat)
  | publish (j : Nat)
  | release (j : Nat)

variable {term value posting : Type} [DecidableEq posting]

namespace Shared

variable (x : Shared term value posting)

def setRebuild (j : Nat)
    (r : Rebuild term value posting) : Shared term value posting :=
  { x with rebuilds := x.rebuilds.set j r }

/-- No publication is under way or waited for. -/
def free : Bool :=
  !x.barrier.publisher && x.barrier.waitingPublishers == 0

variable (cfg : IndexConfig value posting)

/-- A step of a writer, with the barrier's own part in it. -/
def writerStep
    (x : Shared term value posting) (l : WriterStep term value) :
    Option (Shared term value posting) :=
  match l with
  | .enter _ _ =>
    if x.free then
      (x.session.step cfg l).map fun session =>
        { x with
          session := session
          barrier := { x.barrier with
            activeMutations := x.barrier.activeMutations + 1 } }
    else none
  | .leave i =>
    match x.session.writers[i]? with
    | some (.applied changed) =>
      (x.session.step cfg l).map fun session =>
        { x with
          session := session
          barrier := { x.barrier with
            activeMutations := x.barrier.activeMutations - 1
            generation :=
              if changed then x.barrier.generation + 1
              else x.barrier.generation } }
    | _ => none
  | _ => (x.session.step cfg l).map fun session =>
    { x with session := session }

/-- `is_current`. -/
def isCurrent (generation : Nat) : Bool :=
  !x.barrier.publisher && x.barrier.activeMutations == 0 &&
    x.barrier.generation == generation

def step (x : Shared term value posting) :
    SharedStep term value -> Option (Shared term value posting)
  | .writer l => x.writerStep cfg l
  | .start j =>
    match x.rebuilds[j]? with
    | some .idle => some (x.setRebuild j (.started x.indexId))
    | _ => none
  | .snapshotGeneration j =>
    match x.rebuilds[j]? with
    | some (.started old) =>
      if x.free then
        some (x.setRebuild j (.snapped old x.barrier.generation))
      else none
    | _ => none
  | .scan j =>
    match x.rebuilds[j]? with
    | some (.snapped old generation) =>
      some (x.setRebuild j
        (.scanned old generation x.session.store.getAllCandsData))
    | _ => none
  | .build j timestamp clock =>
    match x.rebuilds[j]? with
    | some (.scanned old generation rows) =>
      if x.isCurrent generation then
        some (x.setRebuild j (.built old generation
          (NativeIndex.build cfg timestamp clock rows)))
      else some (x.setRebuild j .idle)
    | _ => none
  | .await j =>
    match x.rebuilds[j]? with
    | some (.built old generation index) =>
      some { x.setRebuild j (.waiting old generation index) with
        barrier := { x.barrier with
          waitingPublishers := x.barrier.waitingPublishers + 1 } }
    | _ => none
  | .acquire j =>
    match x.rebuilds[j]? with
    | some (.waiting old generation index) =>
      if !x.barrier.publisher && x.barrier.activeMutations == 0 then
        some { x.setRebuild j (.exclusive old generation index) with
          barrier := { x.barrier with
            publisher := true
            waitingPublishers := x.barrier.waitingPublishers - 1 } }
      else none
    | _ => none
  | .publish j =>
    match x.rebuilds[j]? with
    | some (.exclusive old generation index) =>
      if x.barrier.generation = generation ∧ x.indexId = old then
        some { x.setRebuild j .finished with
          session := { x.session with index := index }
          indexId := x.indexId + 1 }
      else some (x.setRebuild j .finished)
    | _ => none
  | .release j =>
    match x.rebuilds[j]? with
    | some .finished =>
      some { x.setRebuild j .idle with
        barrier := { x.barrier with publisher := false } }
    | _ => none

/-- A collection with idle writers and rebuilds, over what the store has. -/
def start (s : Store term value)
    (timestamp clock writers rebuilds : Nat) : Shared term value posting where
  session :=
    { store := s
      index := NativeIndex.build cfg timestamp clock s.getAllCandsData
      writers := List.replicate writers .idle }
  barrier := ⟨0, false, 0, 0⟩
  indexId := 0
  rebuilds := List.replicate rebuilds .idle

end Shared
end Collection
end OpenViking
