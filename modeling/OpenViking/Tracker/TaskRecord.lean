import OpenViking.Common.Path

/-!
# Task records

The record of one background task and the changes that the calls of the tracker make to
it.  Times are counted in ticks, the distance of two neighbouring time stamps.
-/

namespace OpenViking
namespace Tracker

open Paths (Str)

inductive TaskStatus where
  | pending
  | running
  | cancelling
  | completed
  | failed
  | cancelled
deriving DecidableEq

namespace TaskStatus

def value : TaskStatus -> Str
  | .pending => "pending".toList
  | .running => "running".toList
  | .cancelling => "cancelling".toList
  | .completed => "completed".toList
  | .failed => "failed".toList
  | .cancelled => "cancelled".toList

def terminal : TaskStatus -> Bool
  | .completed | .failed | .cancelled => true
  | .pending | .running | .cancelling => false

def active : TaskStatus -> Bool
  | .pending | .running | .cancelling => true
  | .completed | .failed | .cancelled => false

def takesOutcome : TaskStatus -> Bool
  | .pending | .running => true
  | .cancelling | .completed | .failed | .cancelled => false

end TaskStatus

def cancellableTaskTypes : List Str :=
  ["add_resource".toList, "session_commit".toList, "admin_reindex".toList,
    "snapshot_restore_reindex".toList]

structure TaskRecord where
  taskType : Str
  status : TaskStatus := .pending
  createdAt : Nat
  updatedAt : Nat
  resourceId : Option Str := none
  stage : Option Str := none
  result : Option Str := none
  error : Option Str := none
  auth : List (Str × Str) := []
deriving DecidableEq

/-- What a new task is made of, with the two times at which its record is built. -/
structure CreateRequest where
  taskType : Str
  resourceId : Option Str := none
  auth : List (Str × Str) := []
  createdAt : Nat
  updatedAt : Nat
deriving DecidableEq

def CreateRequest.record (request : CreateRequest) : TaskRecord :=
  { taskType := request.taskType
    createdAt := request.createdAt
    updatedAt := request.updatedAt
    resourceId := request.resourceId
    auth := request.auth }

/-!
# Texts of errors
-/

/-- The letters that a pattern without case takes besides the plain ones. -/
def foldCase (c : Char) : Char :=
  if c.toNat = 383 then Char.ofNat 115
  else if c.toNat = 8490 then Char.ofNat 107
  else c.toLower

def tokenChar (c : Char) : Bool :=
  let folded := foldCase c
  (folded.toNat < 128 && folded.isAlphanum) || c.toNat == 304 || c.toNat == 305
    || "._-".toList.contains c

def spaceChar (c : Char) : Bool :=
  (9 <= c.toNat && c.toNat <= 13) || (28 <= c.toNat && c.toNat <= 32)
    || (8192 <= c.toNat && c.toNat <= 8202)
    || [133, 160, 5760, 8232, 8233, 8239, 8287, 12288].contains c.toNat

def secretLeads : List Str :=
  ["sk-".toList, "cr_".toList, "ghp_".toList, "ntn_".toList, "xoxb-".toList,
    "xoxa-".toList, "xoxp-".toList, "xoxr-".toList, "xoxs-".toList]

/-- How many characters the secret at the front of a text takes after `lead`. -/
def tokenAfter (text : Str) (lead : Nat) : Nat :=
  match ((text.drop lead).takeWhile tokenChar).length with
  | 0 => 0
  | n + 1 => lead + (n + 1)

def startsWithLead (text lead : Str) : Bool :=
  (text.take lead.length).map foldCase == lead

/-- The length of the secret at the front of a text, 0 when there is none. -/
def secretLength (text : Str) : Nat :=
  match secretLeads.find? (startsWithLead text) with
  | some lead => tokenAfter text lead.length
  | none =>
    if startsWithLead text "bearer".toList then
      match ((text.drop 6).takeWhile spaceChar).length with
      | 0 => 0
      | n + 1 => tokenAfter text (6 + (n + 1))
    else 0

/-- `skipped` characters of a secret are still to be passed over. -/
def redactFrom : Nat -> Str -> Str
  | _, [] => []
  | skipped + 1, _ :: rest => redactFrom skipped rest
  | 0, c :: rest =>
    match secretLength (c :: rest) with
    | 0 => c :: redactFrom 0 rest
    | n + 1 => "[REDACTED]".toList ++ redactFrom n rest

def maxErrorLen : Nat := 500

def sanitizeError (error : Str) : Str :=
  let sanitized := redactFrom 0 error
  if sanitized.length > maxErrorLen then
    sanitized.take maxErrorLen ++ "...[truncated]".toList
  else sanitized

example :
    sanitizeError "key SK-a.b1 and Bearer  x!".toList =
      "key [REDACTED] and [REDACTED]!".toList := by
  decide +kernel

/-!
# Changes of a record
-/

/-- The failure of a work item, for a record that has no error yet. -/
def orWorkError (error workError : Option Str) : Option Str :=
  match error, workError with
  | none, some text => if text = [] then none else some (sanitizeError text)
  | error, _ => error

namespace TaskRecord

variable (task : TaskRecord)

/-- The current time, and later than the record in any case. -/
def nextUpdatedAt (now : Nat) : Nat := max now (task.updatedAt + 1)

def started (stage : Option Str) (now : Nat) : TaskRecord :=
  { task with
    status := .running
    stage := stage.or task.stage
    updatedAt := task.nextUpdatedAt now }

def staged (stage : Str) (now : Nat) : TaskRecord :=
  { task with
    stage := some stage
    updatedAt := task.nextUpdatedAt now }

def withOutcome (result error resourceId workError : Option Str) (now : Nat) :
    TaskRecord :=
  { task with
    result := result.or task.result
    resourceId := if result.isSome then resourceId.or task.resourceId
      else task.resourceId
    error := orWorkError (task.error.or (error.map sanitizeError)) workError
    updatedAt := task.nextUpdatedAt now
    auth := [] }

def cancelRequested (now : Nat) : TaskRecord :=
  { task with
    status := .cancelling
    updatedAt := task.nextUpdatedAt now }

/-- The terminal status that the outcome calls for. -/
def conclusion (workError : Option Str) : Option TaskStatus :=
  if task.status = .cancelling then some .cancelled
  else if (orWorkError task.error workError).isSome then some .failed
  else if task.result.isSome then some .completed
  else none

def concluded (workError : Option Str) (now : Nat) (status : TaskStatus) :
    TaskRecord :=
  { task with
    status
    error := if task.status = .cancelling then task.error
      else orWorkError task.error workError
    stage := some status.value
    updatedAt := task.nextUpdatedAt now
    auth := [] }

def ticksPerSecond : Nat := 4194304

def ttlCompleted : Nat := 86400 * ticksPerSecond

def ttlFailed : Nat := 604800 * ticksPerSecond

def isExpired (now : Nat) : Bool :=
  match task.status with
  | .completed | .cancelled => decide (task.updatedAt + ttlCompleted < now)
  | .failed => decide (task.updatedAt + ttlFailed < now)
  | .pending | .running | .cancelling => false

/-- A snapshot does not show the authentication of the task. -/
def copy : TaskRecord := { task with auth := [] }

/-- An outcome or a cancellation is recorded, and the status is not yet terminal. -/
def ripe : Bool :=
  task.status.active
    && (task.status == .cancelling || task.error.isSome || task.result.isSome)

end TaskRecord

/-!
# Owners
-/

/-- The owner that a task is created with.  Its record is stored under both names. -/
structure TaskOwner where
  accountId : Str
  userId : Str
  accountId_ne : accountId ≠ []
  userId_ne : userId ≠ []

instance : DecidableEq TaskOwner := fun a b =>
  decidable_of_iff (a.accountId = b.accountId ∧ a.userId = b.userId) (by
    cases a
    cases b
    simp)

/-- The names that a call asks the owner to have. -/
structure OwnerFilter where
  accountId : Option Str := none
  userId : Option Str := none
deriving DecidableEq

namespace TaskOwner

variable (owner : TaskOwner)

def matchesOwner (asked : OwnerFilter) : Bool :=
  asked.accountId.all (fun accountId => accountId == owner.accountId)
    && asked.userId.all (fun userId => userId == owner.userId)

/-- The call gives both names of the owner. -/
def names (asked : OwnerFilter) : Bool :=
  asked.accountId == some owner.accountId && asked.userId == some owner.userId

/-- The stored record, read under the names of the call. -/
def storeGet (store : Option TaskRecord) (asked : OwnerFilter) : Option TaskRecord :=
  if owner.names asked then store else none

def filter : OwnerFilter :=
  { accountId := some owner.accountId, userId := some owner.userId }

theorem names_filter : owner.names owner.filter = true := by simp [names, filter]

theorem parts_of_names {owner : TaskOwner} {asked : OwnerFilter}
    (h : owner.names asked = true) :
    (asked.accountId.isSome && asked.userId.isSome) = true := by
  rw [names, Bool.and_eq_true, beq_iff_eq, beq_iff_eq] at h
  rw [h.1, h.2]
  rfl

theorem storeGet_filter (store : Option TaskRecord) :
    owner.storeGet store owner.filter = store := by
  rw [storeGet, if_pos owner.names_filter]

theorem eq_store_of_storeGet {store : Option TaskRecord} {asked : OwnerFilter}
    {task : TaskRecord} (h : owner.storeGet store asked = some task) :
    store = some task := by
  unfold storeGet at h
  split at h
  · exact h
  · cases h

end TaskOwner

/-!
# The order of statuses
-/

/-- What a task of status `a` may have as its status later on. -/
def TaskStatus.Precedes (a b : TaskStatus) : Prop :=
  a = b ∨ a.takesOutcome = true ∨ a = .cancelling ∧ b = .cancelled

instance decidablePrecedes (a b : TaskStatus) : Decidable (a.Precedes b) :=
  inferInstanceAs
    (Decidable (a = b ∨ a.takesOutcome = true ∨ a = .cancelling ∧ b = .cancelled))

namespace TaskStatus

theorem Precedes.refl (a : TaskStatus) : a.Precedes a := Or.inl rfl

theorem Precedes.trans {a b c : TaskStatus} (hab : a.Precedes b)
    (hbc : b.Precedes c) : a.Precedes c := by
  revert hab hbc
  cases a <;> cases b <;> cases c <;> decide

theorem Precedes.of_takesOutcome {a b : TaskStatus} (h : a.takesOutcome = true) :
    a.Precedes b :=
  Or.inr (Or.inl h)

theorem active_eq_not_terminal (a : TaskStatus) : a.active = !a.terminal := by
  cases a <;> rfl

theorem active_of_takesOutcome {a : TaskStatus} (h : a.takesOutcome = true) :
    a.active = true := by
  revert h
  cases a <;> decide

end TaskStatus

namespace TaskRecord

variable {task : TaskRecord}

variable {workError : Option Str}

theorem conclusion_terminal {status : TaskStatus}
    (h : task.conclusion workError = some status) : status.terminal = true := by
  unfold conclusion at h
  split at h
  · cases h
    rfl
  · split at h
    · cases h
      rfl
    · split at h
      · cases h
        rfl
      · cases h

theorem conclusion_precedes {status : TaskStatus}
    (hactive : task.status.active = true)
    (h : task.conclusion workError = some status) : task.status.Precedes status := by
  unfold conclusion at h
  split at h
  case isTrue hcancelling =>
    cases h
    exact Or.inr (Or.inr ⟨hcancelling, rfl⟩)
  case isFalse hcancelling =>
    apply TaskStatus.Precedes.of_takesOutcome
    revert hactive hcancelling
    cases task.status <;> decide

theorem conclusion_isSome_of_ripe
    (hripe : task.ripe = true) : (task.conclusion workError).isSome = true := by
  unfold ripe at hripe
  rw [Bool.and_eq_true] at hripe
  unfold conclusion
  split
  · rfl
  case isFalse hcancelling =>
    have herror : task.error.isSome = true ->
        (orWorkError task.error workError).isSome = true := by
      intro h
      cases htask : task.error with
      | none =>
        rw [htask] at h
        cases h
      | some text => rfl
    split
    · rfl
    case isFalse hnone =>
      have hno : task.error.isSome = false :=
        Bool.eq_false_iff.mpr (fun h => hnone (herror h))
      have hresult : task.result.isSome = true := by
        simpa [hcancelling, hno] using hripe.2
      rw [if_pos hresult]
      rfl

theorem not_ripe_of_terminal (h : task.status.terminal = true) : task.ripe = false := by
  rw [ripe, TaskStatus.active_eq_not_terminal, h]
  rfl

end TaskRecord

end Tracker
end OpenViking
