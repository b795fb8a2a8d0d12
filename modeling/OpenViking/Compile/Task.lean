import OpenViking.Common.Assoc
import OpenViking.Common.Path

/-!
# Compile tasks

A task record is written by a few mutators, each of which looks at the status
before it writes.
-/

namespace OpenViking
namespace Compile

open Paths Assoc

inductive Status where
  | accepted
  | running
  | committing
  | cancelling
  | completed
  | failed
  | cancelled
deriving DecidableEq

/-- `TERMINAL_STATUSES`. -/
def Status.terminal : Status -> Bool
  | .completed => true
  | .failed => true
  | .cancelled => true
  | _ => false

structure CompileResult (report : Type) where
  validationPassed : Bool
  report : report
deriving DecidableEq

structure CompileErrorInfo where
  code : Str
  message : Str
deriving DecidableEq

structure CompileFailure where
  code : Str
  message : Str
  stage : Str
deriving DecidableEq

structure CompileTask (report : Type) where
  principalScope : Str
  /-- The `to` of the request. -/
  target : Str
  status : Status
  stage : Str
  createdAt : Nat
  updatedAt : Nat
  result : Option (CompileResult report)
  error : Option CompileErrorInfo
  resumedFromTaskId : Option Str
deriving DecidableEq

variable {report : Type}

namespace CompileTask

def terminal (t : CompileTask report) : Bool :=
  t.status.terminal

/-- The record of a task that has just been admitted. -/
def create (principalScope target : Str) (resumedFromTaskId : Option Str)
    (now : Nat) : CompileTask report where
  principalScope := principalScope
  target := target
  status := .accepted
  stage := "queued".toList
  createdAt := now
  updatedAt := now
  result := none
  error := none
  resumedFromTaskId := resumedFromTaskId

/-!
# Mutators
-/

def requestCancellation (principalScope : Str) (t : CompileTask report) :
    CompileTask report :=
  if t.principalScope ≠ principalScope ∨ t.terminal then t
  else { t with status := .cancelling }

def finish (t : CompileTask report) : CompileTask report :=
  if t.status ≠ .cancelling then t
  else { t with
    status := .cancelled
    stage := "cancelled".toList
    result := none
    error := none }

def setState (status : Status) (stage : Str) (t : CompileTask report) :
    CompileTask report :=
  if t.terminal ∨ t.status = .cancelling then t
  else { t with status := status, stage := stage }

def fail (failure : CompileFailure) (t : CompileTask report) :
    CompileTask report :=
  if t.terminal ∨ t.status = .cancelling then t
  else { t with
    status := .failed
    stage := failure.stage
    result := none
    error := some ⟨failure.code, failure.message⟩ }

/-- `complete` and `complete_skill` do not look for a terminal status. -/
def complete (result : CompileResult report) (t : CompileTask report) :
    CompileTask report :=
  if t.status = .cancelling then t
  else { t with
    status := .completed
    stage := "completed".toList
    result := some result
    error := none }

def completeSalvaged (result : CompileResult report)
    (t : CompileTask report) : CompileTask report :=
  if t.terminal ∨ t.status = .cancelling then t
  else { t with
    status := .completed
    stage := "salvaged".toList
    result := some result
    error := none }

/-- What a new process does to a task that the last one has left. -/
def interrupt (t : CompileTask report) : CompileTask report :=
  if t.status = .cancelling then
    { t with
      status := .cancelled
      stage := "cancelled".toList
      result := none
      error := none }
  else { t with
    status := .failed
    error := some ⟨"BOT_RESTARTED".toList,
      "VikingBot restarted before the compile task completed.".toList⟩ }

/-- Which tasks `resume_task` takes. -/
def resumable (t : CompileTask report) : Bool :=
  t.status == .failed || t.status == .cancelled ||
    (t.stage == "salvaged".toList &&
      t.result.any fun result => !result.validationPassed)

end CompileTask

/-!
# What a mutator may do

A terminal task keeps its status and its result, and a task that is being
cancelled can only become cancelled.
-/

namespace CompileTask

structure Settles (t t' : CompileTask report) : Prop where
  terminal : t.terminal = true ->
    t'.status = t.status ∧ t'.result = t.result
  cancelling : t.status = .cancelling ->
    t'.status = .cancelling ∨ t'.status = .cancelled

variable {t t' : CompileTask report}

theorem Settles.refl (t : CompileTask report) : t.Settles t :=
  ⟨fun _ => ⟨rfl, rfl⟩, .inl⟩

theorem Settles.trans {t'' : CompileTask report} (h : t.Settles t')
    (h' : t'.Settles t'') : t.Settles t'' := by
  constructor
  · intro hterminal
    rcases h.terminal hterminal with ⟨hstatus, hresult⟩
    have hterminal' : t'.terminal = true := by
      rw [CompileTask.terminal, hstatus]
      exact hterminal
    rcases h'.terminal hterminal' with ⟨hstatus', hresult'⟩
    exact ⟨hstatus'.trans hstatus, hresult'.trans hresult⟩
  · intro hcancelling
    rcases h.cancelling hcancelling with hstill | hdone
    · exact h'.cancelling hstill
    · right
      have hterminal' : t'.terminal = true := by
        rw [CompileTask.terminal, hdone]
        rfl
      rw [(h'.terminal hterminal').1, hdone]

theorem Settles.touched (h : t.Settles t') (now : Nat) :
    t.Settles { t' with updatedAt := now } :=
  ⟨h.terminal, h.cancelling⟩

theorem settles_of_open (hterminal : t.terminal = false)
    (hcancelling : t.status ≠ .cancelling) : t.Settles t' := by
  constructor
  · intro h
    rw [hterminal] at h
    cases h
  · exact fun h => absurd h hcancelling

theorem not_terminal_of_cancelling (h : t.status = .cancelling) :
    t.terminal = false := by
  rw [CompileTask.terminal, h]
  rfl

theorem settles_of_guard (mutated : CompileTask report) :
    t.Settles
      (if t.terminal ∨ t.status = .cancelling then t else mutated) := by
  split
  case isTrue => exact Settles.refl t
  case isFalse hguard =>
    rw [not_or, Bool.not_eq_true] at hguard
    exact settles_of_open hguard.1 hguard.2

theorem settles_cancelled (h : t.status = .cancelling)
    (hcancelled : t'.status = .cancelled) : t.Settles t' := by
  constructor
  · intro hterminal
    rw [not_terminal_of_cancelling h] at hterminal
    cases hterminal
  · exact fun _ => .inr hcancelled

theorem requestCancellation_settles (principalScope : Str)
    (t : CompileTask report) :
    t.Settles (t.requestCancellation principalScope) := by
  rw [requestCancellation]
  split
  case isTrue => exact Settles.refl t
  case isFalse hguard =>
    rw [not_or, Bool.not_eq_true] at hguard
    constructor
    · intro h
      rw [hguard.2] at h
      cases h
    · exact fun _ => .inl rfl

theorem finish_settles (t : CompileTask report) : t.Settles t.finish := by
  rw [finish]
  split
  case isTrue => exact Settles.refl t
  case isFalse hguard => exact settles_cancelled (not_not.mp hguard) rfl

theorem setState_settles (status : Status) (stage : Str)
    (t : CompileTask report) : t.Settles (t.setState status stage) :=
  settles_of_guard _

theorem fail_settles (failure : CompileFailure) (t : CompileTask report) :
    t.Settles (t.fail failure) :=
  settles_of_guard _

theorem completeSalvaged_settles (result : CompileResult report)
    (t : CompileTask report) : t.Settles (t.completeSalvaged result) :=
  settles_of_guard _

theorem complete_settles (result : CompileResult report)
    (h : t.terminal = false) : t.Settles (t.complete result) := by
  rw [complete]
  split
  case isTrue => exact Settles.refl t
  case isFalse hguard => exact settles_of_open h hguard

theorem interrupt_settles (h : t.terminal = false) :
    t.Settles t.interrupt := by
  rw [interrupt]
  split
  case isTrue hguard => exact settles_cancelled hguard rfl
  case isFalse hguard => exact settles_of_open h hguard

theorem requestCancellation_open (principalScope : Str)
    (h : t.terminal = false) :
    (t.requestCancellation principalScope).terminal = false := by
  rw [requestCancellation]
  split
  case isTrue => exact h
  case isFalse => rfl

theorem setState_open {status : Status} (stage : Str)
    (hstatus : status.terminal = false) (h : t.terminal = false) :
    (t.setState status stage).terminal = false := by
  rw [setState]
  split
  case isTrue => exact h
  case isFalse => exact hstatus

end CompileTask

/-!
# The store of the tasks
-/

abbrev CompileTaskStore (report : Type) : Type :=
  Assoc Str (CompileTask report)

namespace CompileTaskStore

variable (s : CompileTaskStore report)

def update (taskId : Str) (mutate : CompileTask report -> CompileTask report)
    (now : Nat) : CompileTaskStore report :=
  match find s taskId with
  | none => s
  | some t => put s taskId { mutate t with updatedAt := now }

/-- The loop of `mark_interrupted_failed` over the names. -/
def interruptAll (now : Nat) :
    List Str -> CompileTaskStore report -> CompileTaskStore report
  | [], s => s
  | taskId :: rest, s =>
    match find s taskId with
    | none => interruptAll now rest s
    | some t =>
      if t.terminal then interruptAll now rest s
      else interruptAll now rest
        (CompileTaskStore.update s taskId CompileTask.interrupt now)

def markInterruptedFailed (now : Nat) : CompileTaskStore report :=
  interruptAll now (bindings s |>.map Prod.fst) s

def terminals : List (Str × CompileTask report) :=
  (bindings s).filter fun b => b.2.terminal

/-- The latest first. -/
def newestFirst (bs : List (Str × CompileTask report)) :
    List (Str × CompileTask report) :=
  bs.insertionSort fun a b =>
    b.2.updatedAt < a.2.updatedAt ∨
      (b.2.updatedAt = a.2.updatedAt ∧ b.1 ≤ a.1)

def prunedIds (retention maxRecords now : Nat) : List Str :=
  let expired := (terminals s).filter fun b => b.2.updatedAt + retention < now
  let retained := (terminals s).filter fun b =>
    !decide (b.2.updatedAt + retention < now)
  expired.map Prod.fst ++
    ((newestFirst retained).drop maxRecords).map Prod.fst

def pruneTerminal (retention maxRecords now : Nat) :
    CompileTaskStore report :=
  delAll s (prunedIds s retention maxRecords now)

/-!
# What the store's operations do
-/

variable {s} {s' s'' : CompileTaskStore report} {issued : List Str}

/-- Every task that has been issued is left or settles. -/
def Settles (issued : List Str) (s s' : CompileTaskStore report) : Prop :=
  forall taskId t', taskId ∈ issued -> find s' taskId = some t' ->
    exists t, find s taskId = some t ∧ t.Settles t'

theorem Settles.refl (issued : List Str) (s : CompileTaskStore report) :
    Settles issued s s :=
  fun _ t' _ hfind => ⟨t', hfind, CompileTask.Settles.refl t'⟩

theorem Settles.trans (h : Settles issued s s') (h' : Settles issued s' s'') :
    Settles issued s s'' := by
  intro taskId t'' hissued hfind
  rcases h' taskId t'' hissued hfind with ⟨t', hfind', hsettles'⟩
  rcases h taskId t' hissued hfind' with ⟨t, hfind, hsettles⟩
  exact ⟨t, hfind, hsettles.trans hsettles'⟩

theorem find_update (s : CompileTaskStore report) (taskId taskId' : Str)
    (mutate : CompileTask report -> CompileTask report) (now : Nat) :
    find (update s taskId mutate now) taskId' =
      if taskId' = taskId then
        (find s taskId).map fun t => { mutate t with updatedAt := now }
      else find s taskId' := by
  rw [update]
  cases hfind : find s taskId with
  | none =>
    change find s taskId' =
      if taskId' = taskId then none else find s taskId'
    split
    case isTrue heq => rw [heq, hfind]
    case isFalse => rfl
  | some t =>
    show find (put s taskId _) taskId' = _
    rw [find_put]
    rfl

variable {taskId : Str}

theorem update_settles {mutate : CompileTask report -> CompileTask report}
    (h : forall t, find s taskId = some t -> t.Settles (mutate t))
    (now : Nat) : Settles issued s (update s taskId mutate now) := by
  intro taskId' t' _ hfind
  rw [find_update] at hfind
  split at hfind
  case isTrue heq =>
    rcases Option.map_eq_some_iff.mp hfind with ⟨t, ht, ht'⟩
    rw [← ht', heq]
    exact ⟨t, ht, (h t ht).touched now⟩
  case isFalse => exact ⟨t', hfind, CompileTask.Settles.refl t'⟩

theorem mem_prunedIds {retention maxRecords now : Nat}
    (h : taskId ∈ prunedIds s retention maxRecords now) :
    exists t, find s taskId = some t ∧ t.terminal = true := by
  have hterminal : forall b, b ∈ terminals s ->
      find s b.1 = some b.2 ∧ b.2.terminal = true := by
    intro b hb
    rcases List.mem_filter.mp hb with ⟨hmem, hterminal⟩
    exact ⟨mem_bindings.mp hmem, hterminal⟩
  rcases List.mem_append.mp h with hexpired | hretained
  · rcases List.mem_map.mp hexpired with ⟨b, hb, heq⟩
    rw [← heq]
    exact ⟨b.2, hterminal b (List.mem_filter.mp hb).1⟩
  · rcases List.mem_map.mp hretained with ⟨b, hb, heq⟩
    have hsorted := List.mem_of_mem_drop hb
    rw [newestFirst, List.mem_insertionSort] at hsorted
    rw [← heq]
    exact ⟨b.2, hterminal b (List.mem_filter.mp hsorted).1⟩

theorem find_pruneTerminal (s : CompileTaskStore report)
    (retention maxRecords now : Nat) {t : CompileTask report} :
    (find (pruneTerminal s retention maxRecords now) taskId = some t ->
        find s taskId = some t) ∧
      (find s taskId = some t -> t.terminal = false ->
        find (pruneTerminal s retention maxRecords now) taskId =
          some t) := by
  rw [pruneTerminal]
  constructor
  · intro hfind
    exact (find_delAll_eq_some.mp hfind).2
  intro hfind hopen
  apply find_delAll_eq_some.mpr
  refine ⟨?_, hfind⟩
  intro hmem
  rcases mem_prunedIds hmem with ⟨t', hfind', hterminal⟩
  rw [hfind] at hfind'
  cases hfind'
  rw [hopen] at hterminal
  cases hterminal

theorem pruneTerminal_settles (s : CompileTaskStore report)
    (retention maxRecords now : Nat) :
    Settles issued s (pruneTerminal s retention maxRecords now) :=
  fun _ t' _ hfind => ⟨t', (find_pruneTerminal s retention maxRecords now).1
    hfind, CompileTask.Settles.refl t'⟩

theorem interruptAll_settles (now : Nat) (taskIds : List Str)
    (s : CompileTaskStore report) :
    Settles issued s (interruptAll now taskIds s) := by
  induction taskIds generalizing s with
  | nil => exact Settles.refl issued s
  | cons taskId rest ih =>
    rw [interruptAll]
    cases hfind : find s taskId with
    | none => exact ih s
    | some t =>
      show Settles issued s (if t.terminal then _ else _)
      cases hterminal : t.terminal with
      | true => exact ih s
      | false =>
        apply Settles.trans _ (ih _)
        apply update_settles
        intro t' hfind'
        rw [hfind] at hfind'
        cases hfind'
        exact CompileTask.interrupt_settles hterminal

end CompileTaskStore
end Compile
end OpenViking
