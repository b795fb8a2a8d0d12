import OpenViking.Tracker.TrackerSound

/-!
# The calls keep the invariant

Every decision of a call with the lock fits the stored record, and every call goes from
one await point to the next with the invariant kept.
-/

namespace OpenViking
namespace Tracker

open TaskRecord

open Paths (Str)

/-!
# Decisions
-/

/-- Where a call stands after its decision. -/
def Move.thread (op : Op) (asked : OwnerFilter) : Move -> Thread
  | .write record => .writing op asked record
  | .publish record => .done (.task (some record.copy))
  | .check => .checking op.reports asked
  | .delete => .deleting op
  | .finish answer => .done answer

def Move.Fits (world : World) (op : Op) : Move -> Prop
  | .write record => WriteFits world op record
  | .publish record => world.store = some record
  | _ => True

variable {world : World}

theorem ripe_of_store {task : TaskRecord} (h : world.store = some task) :
    world.ripe = task.ripe := by
  rw [World.ripe, h]
  rfl

variable {op : Op}

theorem writeFits_of_takesOutcome {task record : TaskRecord}
    (hstore : world.store = some task) (htask : task.status.takesOutcome = true)
    (hterminal : record.status.terminal = false)
    (hripe : record.ripe = true -> task.ripe = true ∧ op.promises = false ∨
      (exists result error resourceId, op = .recordOutcome result error resourceId) ∨
        op = .cancel) :
    WriteFits world op record := by
  constructor
  · intro stored hstored
    rw [hstore] at hstored
    cases hstored
    exact TaskStatus.Precedes.of_takesOutcome htask
  · intro hnone
    rw [hstore] at hnone
    cases hnone
  · intro h
    rw [hterminal] at h
    cases h
  · rw [ripe_of_store hstore]
    exact hripe

section Decisions

variable {world : World} {task : Option TaskRecord} {now : Nat}

theorem not_terminal_of_takesOutcome {status : TaskStatus}
    (h : status.takesOutcome = true) : status.terminal = false := by
  revert h
  cases status <;> decide

theorem ripe_of_started {task : TaskRecord} {stage : Option Str}
    (htask : task.status.takesOutcome = true)
    (h : (task.started stage now).ripe = true) : task.ripe = true := by
  have hactive := TaskStatus.active_of_takesOutcome htask
  have hparts : (task.error.isSome || task.result.isSome) = true := h
  rw [ripe, hactive, Bool.true_and, Bool.or_assoc, hparts, Bool.or_true]

theorem decideCreate_fits {request : CreateRequest}
    (htask : forall record, task = some record -> world.store = some record)
    (hnone : task = none -> world.store = none) :
    (decideCreate request task).Fits world (.create request) := by
  cases htask' : task with
  | some existing => exact htask existing htask'
  | none =>
    constructor
    · intro stored hstored
      rw [hnone htask'] at hstored
      cases hstored
    · exact fun _ => ⟨⟨request, rfl⟩, rfl⟩
    · exact nofun
    · exact nofun

theorem decideStart_fits {stage : Option Str}
    (htask : forall record, task = some record -> world.store = some record) :
    (decideStart stage now task).Fits world (.start stage) := by
  cases htask' : task with
  | none => trivial
  | some record =>
    unfold decideStart
    dsimp only
    split
    case isTrue htakes =>
      exact writeFits_of_takesOutcome (htask record htask') htakes rfl
        (fun h => .inl ⟨ripe_of_started htakes h, rfl⟩)
    case isFalse => trivial

theorem decideUpdateStage_fits {stage : Str}
    (htask : forall record, task = some record -> world.store = some record) :
    (decideUpdateStage stage now task).Fits world (.updateStage stage) := by
  cases htask' : task with
  | none => trivial
  | some record =>
    unfold decideUpdateStage
    dsimp only
    split
    case isTrue htakes =>
      exact writeFits_of_takesOutcome (htask record htask') htakes
        (not_terminal_of_takesOutcome htakes) (fun h => .inl ⟨h, rfl⟩)
    case isFalse => trivial

variable {workError : Option Str}

theorem decideOutcome_fits {result error resourceId : Option Str}
    (htask : forall record, task = some record -> world.store = some record) :
    (decideOutcome result error resourceId workError now task).Fits world
      (.recordOutcome result error resourceId) := by
  cases htask' : task with
  | none => trivial
  | some record =>
    unfold decideOutcome
    dsimp only
    split
    case isTrue htakes =>
      exact writeFits_of_takesOutcome (htask record htask') htakes
        (not_terminal_of_takesOutcome htakes)
        (fun _ => .inr (Or.inl ⟨result, error, resourceId, rfl⟩))
    case isFalse => trivial

theorem decideCancel_fits
    (htask : forall record, task = some record -> world.store = some record) :
    (decideCancel now task).Fits world .cancel := by
  cases htask' : task with
  | none => trivial
  | some record =>
    unfold decideCancel
    dsimp only
    split
    · trivial
    case isFalse hcancelled =>
      split
      · trivial
      case isFalse hcancelling =>
        split
        · trivial
        split
        · trivial
        case isFalse hterminal =>
          have htakes : record.status.takesOutcome = true := by
            revert hcancelled hcancelling hterminal
            cases record.status <;> decide
          exact writeFits_of_takesOutcome (htask record htask') htakes rfl
            (fun _ => .inr (Or.inr rfl))

theorem decideFinalize_fits {report : Bool} {answer : Answer}
    (htask : forall record, task = some record -> world.store = some record) :
    (decideFinalize workError world.hasWork now answer task).Fits world
      (.finalize report) := by
  cases htask' : task with
  | none => trivial
  | some record =>
    unfold decideFinalize
    dsimp only
    split
    case isFalse => trivial
    case isTrue hready =>
      rw [Bool.and_eq_true, Bool.not_eq_true'] at hready
      cases hstatus : record.conclusion workError with
      | none => trivial
      | some status =>
        have hterminal := conclusion_terminal hstatus
        constructor
        · intro stored hstored
          rw [htask record htask'] at hstored
          cases hstored
          exact conclusion_precedes hready.1 hstatus
        · intro hnone
          rw [htask record htask'] at hnone
          cases hnone
        · exact fun _ => hready.2
        · intro hripe
          rw [not_ripe_of_terminal hterminal] at hripe
          cases hripe

theorem decideFinalize_writes {record : TaskRecord}
    {answer : Answer} (hripe : record.ripe = true) :
    exists written, decideFinalize workError false now answer (some record) =
      .write written := by
  have hactive : record.status.active = true := by
    rw [ripe, Bool.and_eq_true] at hripe
    exact hripe.1
  have hsome : (record.conclusion workError).isSome = true :=
    conclusion_isSome_of_ripe hripe
  rcases Option.isSome_iff_exists.mp hsome with ⟨status, hstatus⟩
  refine ⟨record.concluded workError now status, ?_⟩
  unfold decideFinalize
  dsimp only
  rw [hactive, hstatus]
  rfl

variable {owner : TaskOwner}

variable {asked : OwnerFilter}

theorem delete_fits
    (hop : (exists cutoff, op = .deleteExpired cutoff) ∨ op = .deleteUser) :
    (world.decide owner now op asked task).Fits world op := by
  rcases hop with ⟨cutoff, rfl⟩ | rfl
  · cases task with
    | none => trivial
    | some record =>
      show Move.Fits world _ (if record.isExpired cutoff then _ else _)
      split
      · trivial
      · trivial
  · cases task with
    | none => trivial
    | some record =>
      show Move.Fits world _ (if record.status.active || world.hasWork then _ else _)
      split
      · trivial
      · trivial

theorem decide_fits
    (htask : forall record, task = some record -> world.store = some record)
    (hnone : (exists request, op = .create request) -> task = none ->
      world.store = none) :
    (world.decide owner now op asked task).Fits world op := by
  cases op with
  | create request => exact decideCreate_fits htask (hnone ⟨request, rfl⟩)
  | start stage => exact decideStart_fits htask
  | updateStage stage => exact decideUpdateStage_fits htask
  | recordOutcome result error resourceId => exact decideOutcome_fits htask
  | cancel => exact decideCancel_fits htask
  | finalize report => exact decideFinalize_fits htask
  | deleteExpired cutoff => exact delete_fits (Or.inl ⟨cutoff, rfl⟩)
  | deleteUser => exact delete_fits (Or.inr rfl)

end Decisions

theorem willFinalize_waiting (owner : TaskOwner) (op : Op) (asked : OwnerFilter) :
    (Thread.waiting op asked).willFinalize owner = op.promises := by
  cases op <;> rfl

variable {owner : TaskOwner}

theorem promises_of_willFinalize_loaded {task : Option TaskRecord}
    (h : (Thread.loaded op asked task).willFinalize owner = true) :
    op.promises = true := by
  revert h
  cases op <;> first | (intro _; rfl) | (intro h; exact nomatch h)

theorem promises_of_willFinalize_reading
    (h : (Thread.reading op asked).willFinalize owner = true) :
    op.promises = true := by
  revert h
  cases op <;> first | (intro _; rfl) | (intro h; exact nomatch h)

theorem willFinalize_decide {record : TaskRecord} {now : Nat} (hop : op.promises = true)
    (hripe : record.ripe = true) (hidle : world.hasWork = false) :
    ((world.decide owner now op asked (some record)).thread op asked).willFinalize
      owner = true := by
  cases op with
  | recordOutcome result error resourceId =>
    show (Move.thread _ _ (if record.status.takesOutcome then _ else _)).willFinalize
      owner = true
    split
    · rfl
    · rfl
  | finalize report =>
    have hwrites : exists written, decideFinalize world.failure false now
        (world.answerOf owner asked report) (some record) = .write written :=
      decideFinalize_writes hripe
    rcases hwrites with ⟨written, hwritten⟩
    rw [World.decide, hidle, hwritten]
    rfl
  | _ => cases hop

end Tracker
end OpenViking
