import OpenViking.Common.Interleaving
import OpenViking.Session.CommitWrites

/-!
# Runs of a session

Any number of workers add messages, commit, recover archives and complete the
second phase of archives.  Each call holds the lease of the session, so that the
steps of a run are whole calls, ended in one of the ways a call can end.
-/

namespace OpenViking
namespace Session

open List

/-!
# The messages a session serves
-/

def stableDeduplicateFrom : List Nat -> List Message -> List Message
  | _, [] => []
  | seen, m :: rest =>
    if seen.contains m.id then stableDeduplicateFrom seen rest
    else m :: stableDeduplicateFrom (m.id :: seen) rest

def stableDeduplicateMessages (messages : List Message) : List Message :=
  stableDeduplicateFrom [] messages

/-- The raw messages of all archives, in the order of their numbers. -/
def Store.archivedMessages (st : Store) : List Message :=
  st.archives.flatMap (fun a => a.raw.getD [])

theorem ids_stableDeduplicateFrom (seen : List Nat) (messages : List Message) :
    ids (stableDeduplicateFrom seen messages) =
      ((ids messages).filter (fun id => !seen.contains id)).eraseDups := by
  induction messages generalizing seen with
  | nil => rfl
  | cons m rest ih =>
    rw [stableDeduplicateFrom]
    change _ = ((m.id :: ids rest).filter _).eraseDups
    by_cases hseen : seen.contains m.id = true
    · rw [if_pos hseen, ih, filter_cons_of_neg (by simpa using hseen)]
    rw [if_neg hseen, filter_cons_of_pos (by simpa using hseen),
      eraseDups_cons, filter_filter]
    change m.id :: ids (stableDeduplicateFrom (m.id :: seen) rest) = _
    rw [ih]
    congr 2
    apply filter_congr
    intro id _
    rw [contains_cons, Bool.not_or]

theorem ids_stableDeduplicateMessages (messages : List Message) :
    ids (stableDeduplicateMessages messages) = (ids messages).eraseDups := by
  rw [stableDeduplicateMessages, ids_stableDeduplicateFrom]
  congr 1
  apply filter_eq_self.mpr
  intro id _
  rfl

/-!
# Steps
-/

structure History where
  store : Store
  workers : List Worker
  added : List Nat
  moved : List Nat
deriving DecidableEq

def History.new : History :=
  { store := Store.new, workers := [], added := [], moved := [] }

inductive Action where
  | openWorker
  | addMessages (worker : Nat) (unreadable : Bool) (messages : List Message)
  | commit (worker : Nat) (request : CommitRequest) (faults : CommitFaults)
      (fate : Fate)
  | recover (worker : Nat) (unreadable : Bool) (index : Nat)
  | complete (worker : Nat) (unreadable : Bool) (item : QueueItem)
      (succeeds : Bool)
  | skipOrphan (index : Nat)
deriving DecidableEq

/-- Every message gets an id that no message has. -/
def freshIds (added : List Nat) (messages : List Message) : Bool :=
  decide (ids messages).Nodup && (ids messages).all (fun id => !added.contains id)

/-- A commit has archived messages and taken them out of the live ones. -/
def movedBy (plan : CommitPlan) (fate : Fate) : List Nat :=
  if plan.archives &&
      (plan.writes.take (fate.written plan)).contains .root then
    [plan.index]
  else []

def Store.ack (st : Store) (item : QueueItem) : Store :=
  { st with queue := st.queue.erase item }

/-- Phase 2 has ended and counts into the metadata. -/
def completedMeta (sessionMeta : SessionMeta) (index : Nat) (st : Store) :
    SessionMeta :=
  { sessionMeta with
    commitCount := max sessionMeta.commitCount index
    messageCount := st.live.length }

/-- A consumer ends with its item.  Phase 1 has to be ready, and an archive
without messages fails. -/
def completeArchive (sessionMeta : SessionMeta) (item : QueueItem)
    (succeeds : Bool) (st : Store) : Option Store :=
  match st.archive item.archive with
  | none => none
  | some a =>
    if a.terminal then some (st.ack item)
    else if (a.phase1.map Phase1.ready).getD true then
      if (a.raw.getD []).isEmpty then
        some ((st.updateArchive item.archive
          (fun a => { a with failed := some .archiveRead })).ack item)
      else if succeeds then
        some ((({ st with
          sessionMeta := completedMeta sessionMeta item.archive st
        } : Store).updateArchive item.archive
          (fun a => { a with done := true })).ack item)
      else
        some ((st.updateArchive item.archive
          (fun a =>
            { a with failed := some .memoryExtraction })).ack item)
    else none

/-- A ready archive without queue work is passed over by its successor. -/
def skipOrphan (index : Nat) (st : Store) : Option Store :=
  match st.archive index with
  | none => none
  | some a =>
    match a.phase1 with
    | none => none
    | some marker =>
      match marker.taskId with
      | none => none
      | some task =>
        if !a.terminal && marker.ready && !st.hasWork task then
          some (st.updateArchive index
            (fun a => { a with failed := some .queueMissing }))
        else none

def step (cfg : Externalizer) (h : History) : Action -> Option History
  | .openWorker =>
    some { h with workers := h.workers ++ [Worker.load h.store] }
  | .addMessages w unreadable messages =>
    match h.workers[w]? with
    | none => none
    | some worker =>
      if freshIds h.added messages then
        let result := appendMessages unreadable messages worker h.store
        some
          { h with
            workers := h.workers.set w result.1
            store := result.2
            added := h.added ++ ids messages }
      else none
  | .commit w request faults fate =>
    match h.workers[w]? with
    | none => none
    | some worker =>
      let result := commitAsync cfg request faults fate worker h.store
      some
        { h with
          workers := h.workers.set w result.1
          store := result.2
          moved := h.moved ++
            (if request.valid then
              movedBy (commitPlan cfg request faults worker h.store) fate
            else []) }
  | .recover w unreadable index =>
    match h.workers[w]? with
    | none => none
    | some worker =>
      some
        { h with
          store := (ensurePhase1Ready unreadable worker index h.store).2 }
  | .complete w unreadable item succeeds =>
    match h.workers[w]? with
    | none => none
    | some worker =>
      if h.store.queue.contains item then
        (completeArchive (readMeta unreadable worker h.store) item succeeds
          h.store).map (fun st => { h with store := st })
      else none
  | .skipOrphan index =>
    (skipOrphan index h.store).map (fun st => { h with store := st })

/-!
# What has to become of every message
-/

def Archive.processed (a : Archive) : Bool :=
  a.done || a.failed == some .memoryExtraction

/-- Phase 2 has processed the archive, or waits for it in the queue. -/
def Served (st : Store) (index : Nat) (a : Archive) : Prop :=
  a.processed = true ∨
    (a.terminal = false ∧ exists item, item ∈ st.queue ∧ item.archive = index)

/-- The message is live or in an archive that Phase 2 serves. -/
def Secured (st : Store) (id : Nat) : Prop :=
  id ∈ ids st.live ∨
    exists index a raw, st.archive index = some a ∧ a.raw = some raw ∧
      id ∈ ids raw ∧ Served st index a

/-- No step takes the way on which messages are lost: a commit that archives
meets no failed check for an archive that is there and writes no failure marker
after its root, and a recovery of an archive whose messages are out finds the kept
messages at the head of the live ones. -/
def Harmless (cfg : Externalizer) (h : History) : Action -> Prop
  | .commit _ request faults fate =>
    request.valid = true -> (splitMessages cfg request h.store.live).1 ≠ [] ->
      faults.Truthful h.store ∧
        forall written, fate = .raised written true ->
          .root ∉ (archiveWrites request.turnBudget).take written
  | .recover _ _ index =>
    index ∈ h.moved -> forall a marker retained,
      h.store.archive index = some a -> a.terminal = false ->
        a.phase1 = some marker -> marker.ready = false ->
          marker.retainedMessageIds = some retained ->
            (ids h.store.live).take retained.length = retained
  | _ => True

/-!
# The record of the added messages
-/

/-- The archived messages, each at its first place, and the live messages that no
archive holds are the added messages. -/
structure Recorded (archived live added : List Nat) : Prop where
  nodup : added.Nodup
  record : exists old new, live = old ++ new ∧
    (forall id, id ∈ old -> id ∈ archived) ∧ archived.eraseDups ++ new = added

variable {xs : List Nat}

theorem removeAll_of_subset {ys : List Nat} (h : forall x, x ∈ xs -> x ∈ ys) :
    xs.removeAll ys = [] := by
  rw [removeAll, filter_eq_nil_iff]
  intro x hx
  simpa using h x hx

theorem removeAll_of_disjoint {ys : List Nat}
    (h : forall x, x ∈ xs -> x ∉ ys) : xs.removeAll ys = xs := by
  rw [removeAll, filter_eq_self]
  intro x hx
  simpa using h x hx

theorem eraseDups_of_nodup (h : xs.Nodup) : xs.eraseDups = xs := by
  induction xs with
  | nil => rfl
  | cons x xs ih =>
    rcases nodup_cons.mp h with ⟨hx, hxs⟩
    rw [eraseDups_cons]
    have hfilter : xs.filter (fun y => !y == x) = xs := by
      apply filter_eq_self.mpr
      intro y hy
      have hne : y ≠ x := fun heq => hx (heq ▸ hy)
      simpa using hne
    rw [hfilter, ih hxs]

namespace Recorded

variable {archived live added : List Nat}

theorem archived_subset (h : Recorded archived live added) {id : Nat}
    (hid : id ∈ archived) : id ∈ added := by
  rcases h.record with ⟨old, new, _, _, hadded⟩
  rw [← hadded]
  exact mem_append_left _ (mem_eraseDups.mpr hid)

theorem live_subset (h : Recorded archived live added) {id : Nat}
    (hid : id ∈ live) : id ∈ added := by
  rcases h.record with ⟨old, new, hlive, hold, hadded⟩
  rw [hlive] at hid
  rcases mem_append.mp hid with hin | hin
  · exact h.archived_subset (hold id hin)
  · rw [← hadded]
    exact mem_append_right _ hin

theorem eraseDups_eq (h : Recorded archived live added) :
    (archived ++ live).eraseDups = added := by
  have hnodup := h.nodup
  rcases h.record with ⟨old, new, hlive, hold, hadded⟩
  rw [← hadded] at hnodup
  have hapart : forall id, id ∈ new -> id ∉ archived := by
    intro id hid harchived
    exact disjoint_of_nodup_append hnodup
      (mem_eraseDups.mpr harchived) hid
  have hnew : (old ++ new).removeAll archived = new := by
    change (old ++ new).filter _ = new
    rw [filter_append]
    change old.removeAll archived ++ new.removeAll archived = new
    rw [removeAll_of_subset hold, removeAll_of_disjoint hapart, nil_append]
  rw [hlive, eraseDups_append, hnew,
    eraseDups_of_nodup hnodup.of_append_right, hadded]

theorem append {new : List Nat} (h : Recorded archived live added)
    (hnodup : new.Nodup) (hfresh : forall id, id ∈ new -> id ∉ added) :
    Recorded archived (live ++ new) (added ++ new) := by
  refine ⟨?_, ?_⟩
  · apply h.nodup.append hnodup
    intro id hid hnew
    exact hfresh id hnew hid
  · rcases h.record with ⟨old, rest, hlive, hold, hadded⟩
    refine ⟨old, rest ++ new, ?_, hold, ?_⟩
    · rw [hlive, append_assoc]
    · rw [← hadded, append_assoc]

variable {back front : List Nat}

/-- The back part of the live messages after its front part has been archived. -/
theorem split (h : Recorded archived (front ++ back) added) :
    exists old new, back = old ++ new ∧
      (forall id, id ∈ old -> id ∈ archived ++ front) ∧
        (archived ++ front).eraseDups ++ new = added := by
  have hnodup := h.nodup
  rcases h.record with ⟨old, new, hlive, hold, hadded⟩
  rw [← hadded] at hnodup
  rcases append_eq_append_iff.mp hlive with ⟨rest, hrest, hback⟩ |
    ⟨rest, hrest, hback⟩
  · refine ⟨rest, new, hback, ?_, ?_⟩
    · intro id hid
      apply mem_append_left
      apply hold
      rw [hrest]
      exact mem_append_right _ hid
    · have hnone : front.removeAll archived = [] := by
        apply removeAll_of_subset
        intro id hid
        apply hold
        rw [hrest]
        exact mem_append_left _ hid
      rw [eraseDups_append, hnone, eraseDups_nil, append_nil, hadded]
  · rw [hback] at hnodup hadded
    have hapart : forall id, id ∈ rest -> id ∉ archived := by
      intro id hid harchived
      exact disjoint_of_nodup_append hnodup
        (mem_eraseDups.mpr harchived) (mem_append_left _ hid)
    have hrests : (old ++ rest).removeAll archived = rest := by
      change (old ++ rest).filter _ = rest
      rw [filter_append]
      change old.removeAll archived ++ rest.removeAll archived = rest
      rw [removeAll_of_subset hold, removeAll_of_disjoint hapart, nil_append]
    refine ⟨[], back, rfl, ?_, ?_⟩
    · nofun
    · rw [hrest, eraseDups_append, hrests,
        eraseDups_of_nodup hnodup.of_append_right.of_append_left,
        append_assoc, hadded]

theorem archive (h : Recorded archived (front ++ back) added) :
    Recorded (archived ++ front) (front ++ back) added := by
  rcases h.split with ⟨old, new, hback, hold, hadded⟩
  refine ⟨h.nodup, front ++ old, new, ?_, ?_, hadded⟩
  · rw [hback, append_assoc]
  · intro id hid
    rcases mem_append.mp hid with hin | hin
    · exact mem_append_right _ hin
    · exact hold id hin

theorem rewrite {kept : List Nat} (h : Recorded archived (front ++ back) added)
    (hkept : forall id, id ∈ kept -> id ∈ front) :
    Recorded (archived ++ front) (kept ++ back) added := by
  rcases h.split with ⟨old, new, hback, hold, hadded⟩
  refine ⟨h.nodup, kept ++ old, new, ?_, ?_, hadded⟩
  · rw [hback, append_assoc]
  · intro id hid
    rcases mem_append.mp hid with hin | hin
    · exact mem_append_right _ (hkept id hin)
    · exact hold id hin

end Recorded

end Session
end OpenViking
