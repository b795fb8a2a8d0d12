import Mathlib.Data.Rat.Defs
import Mathlib.Algebra.Order.Ring.Rat
import Mathlib.Tactic.Linarith
import Mathlib.Logic.Function.Basic
import OpenViking.Common.Assoc

/-!
# The semantic queue

Memory messages without a coalesce key are deduplicated by a stamp per directory, and
messages with a coalesce key get the next version of their key.  Stamps and versions
live in the process, the entries are durable.
-/

namespace OpenViking
namespace Semantic

open List

inductive ContextType where
  | resource
  | memory
  | skill
  | session
deriving DecidableEq

structure Changes where
  added : List String
  modified : List String
  deleted : List String
deriving DecidableEq

structure SemanticMsg where
  uri : String
  contextType : ContextType
  accountId : String
  userId : String
  peerId : String
  coalesceKey : String
  coalesceVersion : Nat
  changes : Option Changes
  generationTrigger : String
  aggregateDirectory : Bool
deriving DecidableEq

/-- What a message is coalesced by. -/
inductive Key where
  | memory (key : String)
  | coalesce (key : String)
deriving DecidableEq

namespace SemanticMsg

def memoryParentSemanticKey (msg : SemanticMsg) : String :=
  msg.accountId ++ "|" ++ msg.userId ++ "|" ++ msg.peerId ++ "|" ++ msg.uri

/-- Memory messages without a coalesce key go through the stamps. -/
def dedupes (msg : SemanticMsg) : Bool :=
  msg.contextType == ContextType.memory && msg.coalesceKey == ""

def key (msg : SemanticMsg) : Option Key :=
  if msg.coalesceKey ≠ "" then some (.coalesce msg.coalesceKey)
  else if msg.contextType = ContextType.memory then
    some (.memory msg.memoryParentSemanticKey)
  else none

variable {msg : SemanticMsg}

theorem key_of_dedupes (h : msg.dedupes = true) :
    msg.key = some (.memory msg.memoryParentSemanticKey) := by
  unfold dedupes at h
  rw [Bool.and_eq_true, beq_iff_eq, beq_iff_eq] at h
  unfold key
  rw [if_neg (not_not.mpr h.2), if_pos h.1]

theorem dedupes_of_key {k : String}
    (h : msg.key = some (.memory k)) :
    msg.dedupes = true ∧ msg.memoryParentSemanticKey = k := by
  unfold key at h
  split at h
  · cases h
  rename_i hkey
  split at h
  · rename_i hmemory
    cases h
    unfold dedupes
    rw [Bool.and_eq_true, beq_iff_eq, beq_iff_eq]
    exact ⟨⟨hmemory, not_not.mp hkey⟩, rfl⟩
  · cases h

theorem coalesceKey_of_key {k : String}
    (h : msg.key = some (.coalesce k)) : msg.coalesceKey = k ∧ k ≠ "" := by
  unfold key at h
  split at h
  · rename_i hkey
    cases h
    exact ⟨rfl, hkey⟩
  · split at h
    · cases h
    · cases h

theorem key_of_coalesceKey (h : msg.coalesceKey ≠ "") :
    msg.key = some (.coalesce msg.coalesceKey) := by
  unfold key
  rw [if_pos h]

theorem coalesceKey_of_no_key (h : msg.key = none) :
    msg.coalesceKey = "" ∧ msg.dedupes = false := by
  unfold key at h
  split at h
  · cases h
  rename_i hkey
  split at h
  · cases h
  · rename_i hmemory
    refine ⟨not_not.mp hkey, ?_⟩
    unfold dedupes
    rw [Bool.and_eq_false_iff]
    exact .inl (by simpa using hmemory)

/-- The changed files of a message that are still there. -/
def liveFileChanges (msg : SemanticMsg) : Option Changes :=
  match msg.changes with
  | none => none
  | some changes =>
    if changes.added = [] ∧ changes.modified = [] then none
    else some { changes with deleted := [] }

/-- A stale message keeps its per-file work and leaves the directory to the newest
one. -/
def fileOnly (msg : SemanticMsg) (live : Changes) : SemanticMsg :=
  { msg with
    aggregateDirectory := false
    changes := some live
    coalesceKey := ""
    coalesceVersion := 0 }

end SemanticMsg

/-!
# Stamps
-/

/-- When the last memory message of each directory was let through, as a dictionary
in insertion order. -/
abbrev Stamps : Type :=
  List (String × Rat)

namespace Stamps

def find (stamps : Stamps) (key : String) : Option Rat :=
  (List.find? (fun stamp => decide (stamp.1 = key)) stamps).map Prod.snd

def set (stamps : Stamps) (key : String) (now : Rat) : Stamps :=
  if (stamps.map Prod.fst).contains key then
    stamps.map fun stamp => if stamp.1 = key then (key, now) else stamp
  else stamps ++ [(key, now)]

/-- `_MEMORY_PARENT_SEMANTIC_DEDUPE_SEC`. -/
def dedupeWindow : Rat := 45

/-- Once there are more than 2000 stamps, up to 800 old ones are forgotten. -/
def prune (stamps : Stamps) (now : Rat) : Stamps :=
  if stamps.length ≤ 2000 then stamps
  else
    let stale :=
      ((stamps.filter fun stamp =>
        decide (stamp.2 < now - dedupeWindow * 4)).take 800).map Prod.fst
    stamps.filter fun stamp => !stale.contains stamp.1

theorem find_cons (stamp : String × Rat) (rest : Stamps) (key : String) :
    find (stamp :: rest) key =
      if stamp.1 = key then some stamp.2 else find rest key := by
  unfold find
  rw [find?_cons]
  by_cases h : stamp.1 = key
  · rw [decide_eq_true h, if_pos h]
    rfl
  · rw [decide_eq_false h, if_neg h]

variable {key : String} {stamps : Stamps}

theorem mem_of_find {t : Rat}
    (h : stamps.find key = some t) : key ∈ stamps.map Prod.fst := by
  induction stamps with
  | nil => cases h
  | cons stamp rest ih =>
    rw [find_cons] at h
    rw [map_cons]
    by_cases hkey : stamp.1 = key
    · rw [hkey]
      exact mem_cons_self
    · rw [if_neg hkey] at h
      exact mem_cons_of_mem _ (ih h)

/-- A stamp that is found after one was set is that one or an old one of another
key. -/
theorem find_set {key' : String} {now t : Rat}
    (h : (stamps.set key now).find key' = some t) :
    (key' = key ∧ t = now) ∨ (key' ≠ key ∧ stamps.find key' = some t) := by
  unfold set at h
  by_cases hin : (stamps.map Prod.fst).contains key = true
  · rw [if_pos hin] at h
    clear hin
    induction stamps with
    | nil => cases h
    | cons stamp rest ih =>
      rw [map_cons, find_cons] at h
      rw [find_cons]
      by_cases hkey : stamp.1 = key
      · rw [if_pos hkey] at h
        by_cases heq : key = key'
        · rw [if_pos heq] at h
          cases h
          exact .inl ⟨heq.symm, rfl⟩
        · rw [if_neg heq] at h
          rw [if_neg (fun hs => heq (hkey.symm.trans hs))]
          exact ih h
      · rw [if_neg hkey] at h
        by_cases heq : stamp.1 = key'
        · rw [if_pos heq] at h
          rw [if_pos heq]
          exact .inr ⟨fun hk => hkey (heq.trans hk), h⟩
        · rw [if_neg heq] at h
          rw [if_neg heq]
          exact ih h
  · rw [if_neg hin] at h
    rw [contains_iff_mem] at hin
    induction stamps with
    | nil =>
      rw [nil_append, find_cons] at h
      by_cases heq : key = key'
      · rw [if_pos heq] at h
        cases h
        exact .inl ⟨heq.symm, rfl⟩
      · rw [if_neg heq] at h
        cases h
    | cons stamp rest ih =>
      rw [cons_append, find_cons] at h
      rw [find_cons]
      by_cases heq : stamp.1 = key'
      · rw [if_pos heq] at h
        rw [if_pos heq]
        refine .inr ⟨?_, h⟩
        intro hkey
        apply hin
        rw [map_cons, heq, hkey]
        exact mem_cons_self
      · rw [if_neg heq] at h
        rw [if_neg heq]
        exact ih h fun hmem => hin (mem_cons_of_mem _ hmem)

theorem find_prune {now : Rat} {t : Rat}
    (h : (stamps.prune now).find key = some t) : stamps.find key = some t := by
  unfold prune at h
  split at h
  · exact h
  rename_i hmany
  clear hmany
  dsimp only at h
  generalize (((stamps.filter fun stamp =>
    decide (stamp.2 < now - dedupeWindow * 4)).take 800).map Prod.fst) = stale at h
  induction stamps with
  | nil => exact h
  | cons stamp rest ih =>
    rw [find_cons]
    by_cases hstale : stale.contains stamp.1 = true
    · rw [filter_cons_of_neg (by simpa using hstale)] at h
      rcases mem_map.mp (mem_of_find h) with ⟨kept, hkept, hkey⟩
      have hfresh := (mem_filter.mp hkept).2
      rw [if_neg]
      · exact ih h
      · intro heq
        rw [hkey, ← heq, hstale] at hfresh
        cases hfresh
    · rw [filter_cons_of_pos (by simpa using hstale), find_cons] at h
      by_cases heq : stamp.1 = key
      · rw [if_pos heq] at h
        rw [if_pos heq]
        exact h
      · rw [if_neg heq] at h
        rw [if_neg heq]
        exact ih h

end Stamps

/-!
# Enqueuing
-/

/-- A durable message, with the clock and the process that enqueued it. -/
structure Entry where
  msg : SemanticMsg
  enqueuedAt : Rat
  epoch : Nat
deriving DecidableEq

/-- The maps of the process and all durable messages, in the order they were
written. -/
structure SemanticQueue where
  stamps : Stamps
  versions : Assoc String Nat
  entries : List Entry
  epoch : Nat

inductive Answer where
  | deduplicated
  | queued
  | raised
deriving DecidableEq

namespace SemanticQueue

variable (queue : SemanticQueue)

def version (coalesceKey : String) : Nat :=
  (queue.versions.find coalesceKey).getD 0

/-- `is_semantic_msg_stale`. -/
def isStale (msg : SemanticMsg) : Bool :=
  if msg.coalesceKey = "" ∨ msg.coalesceVersion = 0 then false
  else decide (msg.coalesceVersion < queue.version msg.coalesceKey)

def lastStamp (msg : SemanticMsg) : Rat :=
  (queue.stamps.find msg.memoryParentSemanticKey).getD 0

/-- Whether a memory message comes within the window of the last one. -/
def duplicate (now : Rat) (msg : SemanticMsg) : Bool :=
  msg.dedupes && decide (now - queue.lastStamp msg < Stamps.dedupeWindow)

/-- The message as it is written. -/
def versioned (msg : SemanticMsg) : SemanticMsg :=
  if msg.coalesceKey = "" then msg
  else { msg with coalesceVersion := queue.version msg.coalesceKey + 1 }

/-- The stamp and the version are taken before the durable write, which `lands` or
raises. -/
def enqueue (now : Rat) (lands : Bool) (msg : SemanticMsg) :
    SemanticQueue × Answer :=
  if queue.duplicate now msg then (queue, .deduplicated)
  else
    let stamps :=
      if msg.dedupes then
        (queue.stamps.set msg.memoryParentSemanticKey now).prune now
      else queue.stamps
    let versions :=
      if msg.coalesceKey = "" then queue.versions
      else queue.versions.put msg.coalesceKey (queue.version msg.coalesceKey + 1)
    if lands then
      ({ queue with
          stamps := stamps
          versions := versions
          entries := queue.entries ++
            [{ msg := queue.versioned msg, enqueuedAt := now, epoch := queue.epoch }] },
        .queued)
    else ({ queue with stamps := stamps, versions := versions }, .raised)

theorem versioned_key (msg : SemanticMsg) :
    (queue.versioned msg).key = msg.key := by
  unfold versioned
  by_cases h : msg.coalesceKey = ""
  · rw [if_pos h]
  · rw [if_neg h]
    rfl

theorem isStale_iff {queue : SemanticQueue}
    (h : queue.isStale msg = true) :
    msg.key = some (.coalesce msg.coalesceKey) ∧
      msg.coalesceVersion < queue.version msg.coalesceKey := by
  unfold isStale at h
  split at h
  · cases h
  · rename_i hkey
    rw [not_or] at hkey
    exact ⟨SemanticMsg.key_of_coalesceKey hkey.1, of_decide_eq_true h⟩

/-- What an enqueue does that does not lose a durable write of a message with a
key. -/
theorem enqueue_cases {now : Rat} {lands : Bool}
    (hlands : msg.key ≠ none -> lands = true) :
    (queue.duplicate now msg = true ∧
      queue.enqueue now lands msg = (queue, .deduplicated)) ∨
      (queue.duplicate now msg = false ∧ exists stamps versions,
        queue.enqueue now lands msg =
          ({ queue with
              stamps := stamps
              versions := versions
              entries := queue.entries ++
                [{ msg := queue.versioned msg
                   enqueuedAt := now
                   epoch := queue.epoch }] },
            .queued) ∧
        (forall key t, stamps.find key = some t ->
          (msg.key = some (.memory key) ∧ t = now) ∨
            (msg.key ≠ some (.memory key) ∧ queue.stamps.find key = some t)) ∧
        (forall key, (versions.find key).getD 0 =
          if msg.key = some (.coalesce key) then
            (queue.versioned msg).coalesceVersion
          else queue.version key)) ∨
      (queue.duplicate now msg = false ∧ msg.key = none ∧
        queue.enqueue now lands msg = (queue, .raised)) := by
  unfold enqueue
  cases hdup : queue.duplicate now msg with
  | true =>
    rw [if_pos rfl]
    exact .inl ⟨rfl, rfl⟩
  | false =>
    rw [if_neg Bool.false_ne_true]
    dsimp only
    cases lands with
    | false =>
      have hkey : msg.key = none := by
        by_contra hkey
        cases hlands hkey
      have hplain := SemanticMsg.coalesceKey_of_no_key hkey
      rw [if_neg Bool.false_ne_true, if_pos hplain.1, hplain.2,
        if_neg Bool.false_ne_true]
      exact .inr (.inr ⟨rfl, hkey, rfl⟩)
    | true =>
      rw [if_pos rfl]
      refine .inr (.inl ⟨rfl, _, _, rfl, ?_, ?_⟩)
      · intro key t hfind
        cases hded : msg.dedupes with
        | true =>
          rw [hded, if_pos rfl] at hfind
          rw [SemanticMsg.key_of_dedupes hded]
          rcases Stamps.find_set (Stamps.find_prune hfind) with
            ⟨heq, ht⟩ | ⟨hne, hold⟩
          · rw [heq]
            exact .inl ⟨rfl, ht⟩
          · refine .inr ⟨?_, hold⟩
            intro heq
            cases heq
            exact hne rfl
        | false =>
          rw [hded, if_neg Bool.false_ne_true] at hfind
          refine .inr ⟨?_, hfind⟩
          intro heq
          rw [(SemanticMsg.dedupes_of_key heq).1] at hded
          cases hded
      · intro key
        by_cases hcoalesce : msg.coalesceKey = ""
        · rw [if_pos hcoalesce, if_neg]
          · rfl
          · intro heq
            have hkey := SemanticMsg.coalesceKey_of_key heq
            exact hkey.2 (hkey.1.symm.trans hcoalesce)
        · rw [if_neg hcoalesce, SemanticMsg.key_of_coalesceKey hcoalesce,
            Assoc.find_put]
          by_cases heq : key = msg.coalesceKey
          · rw [if_pos heq, heq, if_pos rfl]
            unfold versioned
            rw [if_neg hcoalesce]
            rfl
          · rw [if_neg heq, if_neg]
            · rfl
            · intro h
              cases h
              exact heq rfl

end SemanticQueue

end Semantic
end OpenViking
