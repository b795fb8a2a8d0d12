import OpenViking.Common.Interleaving
import OpenViking.Semantic.SemanticQueue

/-!
# Coalesced refreshes

The queue with its deliveries, retries and restarts.  Each message that is answered
as a duplicate or skipped as stale leaves a record of what must stand in for it.
-/

namespace OpenViking
namespace Semantic
namespace Coalescing

/-- What has become of a durable message. -/
inductive Status where
  | pending
  | delivering (current : SemanticMsg)
  | handled
  | superseded
  | fileOnlyDone
  | requeued
  | swallowed
  | failedRequeue
deriving DecidableEq

/-- A refresh that was dropped: another message of its key must be among the entries
from `after` on or among those that were waiting in its window. -/
structure Drop where
  key : Key
  after : Nat
  waiting : List Nat
deriving DecidableEq

structure World where
  queue : SemanticQueue
  status : Nat -> Status
  clock : Rat
  drops : List Drop

namespace World

def start (clock : Rat) : World :=
  { queue := { stamps := [], versions := ∅, entries := [], epoch := 0 }
    status := fun _ => .pending
    clock := clock
    drops := [] }

variable (world : World)

/-- Undelivered messages of a key that this process enqueued within the window. -/
def waiting (now : Rat) (key : Key) : List Nat :=
  (List.range world.queue.entries.length).filter fun index =>
    match world.queue.entries[index]? with
    | none => false
    | some entry =>
      entry.msg.key == some key && entry.epoch == world.queue.epoch &&
        decide (now - entry.enqueuedAt < Stamps.dedupeWindow) &&
          world.status index == .pending

def setStatus (index : Nat) (status : Status) : World :=
  { world with status := Function.update world.status index status }

/-- An enqueue with what it leaves in the world. -/
def submit (msg : SemanticMsg) (now : Rat) (lands : Bool) :
    World × Answer :=
  match world.queue.enqueue now lands msg with
  | (queue, .deduplicated) =>
    ({ world with
        queue := queue
        clock := now
        drops :=
          { key := .memory msg.memoryParentSemanticKey
            after := world.queue.entries.length
            waiting := world.waiting now (.memory msg.memoryParentSemanticKey) }
          :: world.drops },
      .deduplicated)
  | (queue, .queued) =>
    ({ world with
        queue := queue
        clock := now
        status :=
          Function.update world.status world.queue.entries.length .pending },
      .queued)
  | (queue, .raised) =>
    ({ world with queue := queue, clock := now }, .raised)

/-- The status of a delivered message whose re-enqueue was answered so. -/
def requeuedAs : Answer -> Status
  | .deduplicated => .swallowed
  | .queued => .requeued
  | .raised => .failedRequeue

/-- `_requeue_semantic_msg_after_error`: the answer of the queue is not looked at, a
failing write is reported. -/
def requeueAfterError (index : Nat) (current : SemanticMsg)
    (now : Rat) (lands : Bool) : World :=
  (world.submit current now lands).1.setStatus index
    (requeuedAs (world.submit current now lands).2)

/-- A message that is handled to its end, with or without success. -/
def closed (index : Nat) (current : SemanticMsg) : World :=
  world.setStatus index
    (if (world.queue.entries[index]?.map Entry.msg) = some current then .handled
      else .fileOnlyDone)

/-- A stale message is skipped, what remains of it has the given status. -/
def supersede (index : Nat) (coalesceKey : String) (status : Status) :
    World :=
  { world.setStatus index status with
    drops :=
      { key := .coalesce coalesceKey, after := index + 1, waiting := [] }
        :: world.drops }

/-- The stale check of `on_dequeue`. -/
def deliver (index : Nat) (msg : SemanticMsg) : World :=
  if world.queue.isStale msg then
    match msg.liveFileChanges with
    | none => world.supersede index msg.coalesceKey .superseded
    | some live =>
      if msg.generationTrigger = "content_write" then
        world.supersede index msg.coalesceKey
          (.delivering (msg.fileOnly live))
      else world.supersede index msg.coalesceKey .superseded
  else world.setStatus index (.delivering msg)

end World

inductive Label where
  | enqueue (msg : SemanticMsg) (now : Rat) (lands : Bool)
  | deliver (index : Nat)
  | breakerOpen (index : Nat) (now : Rat) (lands : Bool) (retryNow : Rat)
      (retryLands : Bool)
  | transientError (index : Nat) (now : Rat) (lands : Bool)
  | permanentError (index : Nat)
  | finish (index : Nat) (writes : Bool)
  | restart (now : Rat) (unacked : List Nat)

namespace World

/-- The message that a delivery works on. -/
def current (world : World) (index : Nat) : Option SemanticMsg :=
  match world.status index with
  | .delivering current =>
    if index < world.queue.entries.length then some current else none
  | _ => none

/-- After a restart everything that was not acknowledged is pending again. -/
def restarted (world : World) (now : Rat) (unacked : List Nat) : World :=
  { queue :=
      { stamps := []
        versions := ∅
        entries := world.queue.entries
        epoch := world.queue.epoch + 1 }
    status := fun index =>
      match world.status index with
      | .delivering _ => .pending
      | status => if unacked.contains index then .pending else status
    clock := now
    drops := world.drops }

end World

def step (world : World) : Label -> Option World
  | .enqueue msg now lands =>
    if world.clock ≤ now then some (world.submit msg now lands).1 else none
  | .deliver index =>
    match world.queue.entries[index]? with
    | none => none
    | some entry =>
      if world.status index = .pending then
        some (world.deliver index entry.msg)
      else none
  | .breakerOpen index now lands retryNow retryLands =>
    match world.current index with
    | none => none
    | some current =>
      if world.clock ≤ now then
        match world.submit current now lands with
        | (after, .raised) =>
          -- the failed write is taken for a transient error of the handler
          if now ≤ retryNow then
            some (after.requeueAfterError index current retryNow retryLands)
          else none
        | (after, answer) =>
          some (after.setStatus index (World.requeuedAs answer))
      else none
  | .transientError index now lands =>
    match world.current index with
    | none => none
    | some current =>
      if world.clock ≤ now then
        some (world.requeueAfterError index current now lands)
      else none
  | .permanentError index =>
    match world.current index with
    | none => none
    | some current => some (world.closed index current)
  | .finish index writes =>
    match world.current index with
    | none => none
    | some current =>
      if writes = true ∧ world.queue.isStale current = true then
        some (world.supersede index current.coalesceKey .superseded)
      else some (world.closed index current)
  | .restart now unacked => some (world.restarted now unacked)

/-!
# What is promised
-/

/-- An entry that will refresh what its key stands for, or has been handled. -/
def World.Covers (world : World) (key : Key) (index : Nat) : Prop :=
  exists entry, world.queue.entries[index]? = some entry ∧
    entry.msg.key = some key ∧
    (world.status index = .pending ∨ world.status index = .handled ∨
      world.status index = .delivering entry.msg)

/-- Every dropped refresh has one that stands in for it, and no re-enqueued message
was taken for a duplicate. -/
structure World.NothingLost (world : World) : Prop where
  covered : forall drop, drop ∈ world.drops ->
    exists index, world.Covers drop.key index ∧
      (drop.after ≤ index ∨ index ∈ drop.waiting)
  requeued : forall index, world.status index ≠ .swallowed

/-- The durable write of a message with a key does not fail. -/
def Lands (msg : SemanticMsg) (lands : Bool) : Prop :=
  msg.key ≠ none -> lands = true

/-- What this process let through at a stamp has not been delivered. -/
def World.Undelivered (world : World) (msg : SemanticMsg) (stamp : Rat) : Prop :=
  forall (index : Nat) (entry : Entry), world.queue.entries[index]? = some entry ->
    entry.msg.key = msg.key -> entry.epoch = world.queue.epoch ->
    entry.enqueuedAt = stamp -> world.status index = .pending

/-- The clock has run for a window when a directory without a stamp is enqueued, and
what was let through within the window has not been delivered. -/
def World.Unhurried (world : World) (msg : SemanticMsg) (now : Rat) : Prop :=
  (world.queue.stamps.find msg.memoryParentSemanticKey = none ->
    Stamps.dedupeWindow ≤ now) ∧
  forall stamp, world.queue.stamps.find msg.memoryParentSemanticKey = some stamp ->
    now - stamp < Stamps.dedupeWindow -> world.Undelivered msg stamp

/-- A memory message is re-enqueued after the window of the last one. -/
def World.Late (world : World) (msg : SemanticMsg) (now : Rat) : Prop :=
  msg.dedupes = true -> Stamps.dedupeWindow ≤ now - world.queue.lastStamp msg

def Fits (world : World) : Label -> Prop
  | .enqueue msg now lands =>
    Lands msg lands ∧ (msg.dedupes = true -> world.Unhurried msg now)
  | .breakerOpen index now lands _ _ =>
    forall current, world.current index = some current ->
      Lands current lands ∧ world.Late current now
  | .transientError index now lands =>
    forall current, world.current index = some current ->
      Lands current lands ∧ world.Late current now
  | _ => True

instance (msg : SemanticMsg) (lands : Bool) : Decidable (Lands msg lands) :=
  inferInstanceAs (Decidable (msg.key ≠ none -> lands = true))

instance (world : World) (msg : SemanticMsg) (now : Rat) :
    Decidable (world.Late msg now) :=
  inferInstanceAs (Decidable (msg.dedupes = true ->
    Stamps.dedupeWindow ≤ now - world.queue.lastStamp msg))

instance (world : World) (msg : SemanticMsg) (stamp : Rat) :
    Decidable (world.Undelivered msg stamp) :=
  decidable_of_iff
    (forall index, index ∈ List.range world.queue.entries.length ->
      forall entry, entry ∈ world.queue.entries[index]? ->
        entry.msg.key = msg.key -> entry.epoch = world.queue.epoch ->
        entry.enqueuedAt = stamp -> world.status index = .pending)
    ⟨fun h index entry hget =>
        h index (List.mem_range.mpr (List.getElem?_eq_some_iff.mp hget).1) entry hget,
      fun h index _ entry hget => h index entry hget⟩

instance (world : World) (msg : SemanticMsg) (now : Rat) :
    Decidable (world.Unhurried msg now) :=
  inferInstanceAs (Decidable (
    (world.queue.stamps.find msg.memoryParentSemanticKey = none ->
      Stamps.dedupeWindow ≤ now) ∧
    forall stamp, stamp ∈ world.queue.stamps.find msg.memoryParentSemanticKey ->
      now - stamp < Stamps.dedupeWindow -> world.Undelivered msg stamp))

instance (world : World) : forall label, Decidable (Fits world label)
  | .enqueue msg now lands =>
    inferInstanceAs (Decidable
      (Lands msg lands ∧ (msg.dedupes = true -> world.Unhurried msg now)))
  | .breakerOpen index now lands _ _ =>
    inferInstanceAs (Decidable (forall current, current ∈ world.current index ->
      Lands current lands ∧ world.Late current now))
  | .transientError index now lands =>
    inferInstanceAs (Decidable (forall current, current ∈ world.current index ->
      Lands current lands ∧ world.Late current now))
  | .deliver _ => isTrue trivial
  | .permanentError _ => isTrue trivial
  | .finish _ _ => isTrue trivial
  | .restart _ _ => isTrue trivial

end Coalescing
end Semantic
end OpenViking
