import OpenViking.Compile.Checkpoint
import OpenViking.Common.Interleaving

/-!
# The phases of a mining task

A chain of tasks, each resumed from the checkpoint of the one before it.  The
calls that the agent makes in one response run side by side: where one waits,
another begins or goes on.  They, the checkpoint callback and the thread that
saves a checkpoint take their steps one at a time, and a cancellation can come at
each wait.
-/

namespace OpenViking
namespace Compile

open Paths PhaseGate

structure MiningConfig where
  targetTotalBytes : Nat
  /-- The path of the run manifest in the workspace. -/
  runManifest : EntryPath
  runManifest_inCheckout : inCheckout runManifest = true

/-- The stage in the record of the task. -/
inductive Stage where
  | sourceCoverage
  | candidateKnowledge
  | pageGeneration
  | rendering
  | writing
  | refreshing
deriving DecidableEq

def Stage.completed : Stage -> Option Phase
  | .candidateKnowledge => some .sourceCoverage
  | .pageGeneration => some .candidateKnowledge
  | _ => none

/-- The table of the handler of a cancellation. -/
def Stage.completedAtCancel : Stage -> Option Phase
  | .rendering => some .candidateKnowledge
  | .writing => some .candidateKnowledge
  | .refreshing => some .candidateKnowledge
  | stage => stage.completed

/-- The stage that is reported when a phase is accepted. -/
def Phase.nextStage : Phase -> Stage
  | .sourceCoverage => .candidateKnowledge
  | .candidateKnowledge => .pageGeneration

/-- The stage in which a task starts its agent. -/
def startStage : Option Phase -> Stage
  | none => .sourceCoverage
  | some phase => phase.nextStage

/-- Why a checkpoint is saved. -/
inductive Cause where
  | submission (phase : Phase)
  | interruption (completed : Option Phase)
deriving DecidableEq

def Cause.completedStage : Cause -> Option Phase
  | .submission phase => phase.nextStage.completed
  | .interruption completed => completed

/-- A save that has begun, and the checkpoint that was there before it. -/
structure Save where
  checkpoint : Checkpoint
  previous : Option Checkpoint
  next : SaveStep
deriving DecidableEq

/-- The tools that end a phase, and the one that ends the task. -/
inductive Submission where
  | phase (phase : Phase)
  | bundle
deriving DecidableEq

inductive Activity where
  | agent
  /-- A submission has found its gate open, and reads the workspace. -/
  | validating (submission : Submission)
  /-- A submission is valid, and its callback is called. -/
  | reporting (phase : Phase)
  | collecting (cause : Cause)
  | saving (cause : Cause) (save : Save)
  /-- The bundle is accepted. -/
  | committing
  | completed
  | ended
deriving DecidableEq

namespace Activity

def saves : Activity -> List Save
  | .saving _ save => [save]
  | _ => []

/-- A call of the agent that waits while others run. -/
def waits : Activity -> Bool
  | .validating _ => true
  | .reporting _ => true
  | .collecting (.submission _) => true
  | .saving (.submission _) _ => true
  | .committing => true
  | _ => false

end Activity

structure Chain where
  gate : PhaseGate
  stage : Stage
  workspace : Workspace
  sourceUnitsSignature : Str
  dirs : CheckpointDirs
  activity : Activity
  /-- The calls of the same response that wait. -/
  waiting : List Activity
  /-- Saves that go on in their thread after the task has been cancelled. -/
  detached : List Save
  /-- Whether the latest submission of the coverage was accepted. -/
  coverage : Option Bool
  /-- Whether the latest submission of the candidates since then was. -/
  candidates : Option Bool

inductive ChainStep where
  | write (path : EntryPath) (payload : Payload)
  | remove (path : EntryPath)
  | submitSourceCoverage
  | submitCandidateKnowledge
  | submitWikiBundle
  /-- What the validation of a submission finds. -/
  | validate (valid : Bool)
  /-- The call that runs waits, and the agent's next call begins. -/
  | suspend
  /-- A call that waits goes on. -/
  | wake (index : Nat)
  | report
  | collect
  | save
  /-- What the callback or the handler waits for raises. -/
  | raise
  /-- The iteration limit or a repeated failure. -/
  | limit
  | cancel
  | detachedSave
  | setStage (stage : Stage)
  | complete
  /-- The task fails without saving a checkpoint. -/
  | fail
  /-- The process ends, and a new one marks the task as failed. -/
  | restart
  | resume (base : Workspace) (sourceUnitsSignature : Str)
  /-- A resumed task ends before it has loaded the checkpoint. -/
  | resumeFails (base : Workspace) (sourceUnitsSignature : Str)

namespace Chain

/-- Both validators read the run manifest first; `valid` is what they find. -/
def passes (config : MiningConfig) (x : Chain) (valid : Bool) : Bool :=
  valid && (x.workspace.find config.runManifest).isSome

variable (x : Chain)

def submitSourceCoverage : Chain :=
  { x with
    gate := .closed
    coverage := some false
    candidates := none
    activity := .validating (.phase .sourceCoverage) }

def submitCandidateKnowledge : Chain :=
  { x with
    gate := { x.gate with candidatesPassed := false }
    candidates := some false
    activity :=
      if x.gate.coveragePassed then .validating (.phase .candidateKnowledge)
      else .agent }

def submitWikiBundle : Chain :=
  if x.gate.candidatesPassed then { x with activity := .validating .bundle }
  else x

def validate (config : MiningConfig) (x : Chain) (submission : Submission)
    (valid : Bool) : Chain :=
  match submission with
  | .phase phase =>
    { x with
      activity := if x.passes config valid then .reporting phase else .agent }
  | .bundle => { x with activity := if valid then .committing else .agent }

/-- The end of a submission after its callback. -/
def accept : Phase -> Chain
  | .sourceCoverage =>
    { x with
      gate := { x.gate with coveragePassed := true }
      coverage := some true
      activity := .agent }
  | .candidateKnowledge =>
    { x with
      gate := { x.gate with candidatesPassed := true }
      candidates := some true
      activity := .agent }

/-- `_save_resume_checkpoint` returns. -/
def saved : Cause -> Chain
  | .submission phase => x.accept phase
  | .interruption _ => { x with activity := .ended }

/-- `_save_resume_checkpoint` raises. -/
def unsaved : Cause -> Chain
  | .submission _ => { x with activity := .agent }
  | .interruption _ => { x with activity := .ended }

def collect (config : MiningConfig) (x : Chain) (cause : Cause) : Chain :=
  match h : collectFiles config.targetTotalBytes x.workspace with
  | none => x.unsaved cause
  | some [] => x.saved cause
  | some (file :: files) =>
    let checkpoint : Checkpoint :=
      ⟨cause.completedStage, x.sourceUnitsSignature, file :: files,
        nodup_collectFiles h⟩
    { x with
      activity :=
        .saving cause ⟨checkpoint, x.dirs.destination, .writeTemporary⟩ }

def saveStep (cause : Cause) (save : Save) : Chain :=
  let x := { x with dirs := save.next.perform save.checkpoint x.dirs }
  match save.next.next with
  | some next =>
    { x with activity := .saving cause { save with next := next } }
  | none => x.saved cause

def detachedStep (save : Save) (rest : List Save) : Chain :=
  { x with
    dirs := save.next.perform save.checkpoint x.dirs
    detached :=
      match save.next.next with
      | some next => { save with next := next } :: rest
      | none => rest }

/-- The handler of an interruption saves the workspace. -/
def interrupt (completed : Option Phase) : Chain :=
  { x with activity := .collecting (.interruption completed) }

/-- The saves whose thread is running. -/
def saves : List Save :=
  x.activity.saves ++ x.waiting.flatMap Activity.saves ++ x.detached

/-- A cancellation ends every call, and no thread. -/
def interruptCalls : Chain :=
  { x with waiting := [], detached := x.saves }.interrupt
    x.stage.completedAtCancel

/-- A cancellation where the task waits. -/
def cancel : Option Chain :=
  match x.activity with
  | .collecting (.interruption _) => some { x with activity := .ended }
  | .saving (.interruption _) save =>
    some { x with activity := .ended, detached := save :: x.detached }
  | .completed => none
  | .ended => none
  | _ => some x.interruptCalls

/-- The agent of a task starts after its workspace has been made. -/
def begin (workspace : Workspace) (sourceUnitsSignature : Str)
    (completed : Option Phase) : Chain :=
  { x with
    gate := .resumed completed
    stage := startStage completed
    workspace := workspace
    sourceUnitsSignature := sourceUnitsSignature
    dirs := .empty
    activity := .agent
    waiting := []
    detached := [] }

def resumeFails (base : Workspace) (sourceUnitsSignature : Str) :
    Chain :=
  { x.begin base sourceUnitsSignature none with activity := .ended }

def resume (base : Workspace) (sourceUnitsSignature : Str) :
    Chain :=
  match x.dirs.load sourceUnitsSignature base with
  | .nothing => x.begin base sourceUnitsSignature none
  | .restored workspace completed =>
    x.begin workspace sourceUnitsSignature completed
  | .conflict => x.resumeFails base sourceUnitsSignature

def step (config : MiningConfig) (x : Chain) : ChainStep -> Option Chain
  | .write path payload =>
    match x.activity with
    | .agent => some { x with workspace := x.workspace.put path payload }
    | _ => none
  | .remove path =>
    match x.activity with
    | .agent => some { x with workspace := x.workspace.del path }
    | _ => none
  | .submitSourceCoverage =>
    match x.activity with
    | .agent => some x.submitSourceCoverage
    | _ => none
  | .submitCandidateKnowledge =>
    match x.activity with
    | .agent => some x.submitCandidateKnowledge
    | _ => none
  | .submitWikiBundle =>
    match x.activity with
    | .agent => some x.submitWikiBundle
    | _ => none
  | .validate valid =>
    match x.activity with
    | .validating submission => some (x.validate config submission valid)
    | _ => none
  | .suspend =>
    if x.activity.waits then
      some { x with activity := .agent, waiting := x.activity :: x.waiting }
    else none
  | .wake index =>
    match x.activity, x.waiting[index]? with
    | .agent, some activity =>
      some { x with
        activity := activity
        waiting := x.waiting.eraseIdx index }
    | _, _ => none
  | .report =>
    match x.activity with
    | .reporting phase =>
      some { x with
        stage := phase.nextStage
        activity := .collecting (.submission phase) }
    | _ => none
  | .collect =>
    match x.activity with
    | .collecting cause => some (x.collect config cause)
    | _ => none
  | .save =>
    match x.activity with
    | .saving cause save => some (x.saveStep cause save)
    | _ => none
  | .raise =>
    match x.activity with
    | .reporting phase => some (x.unsaved (.submission phase))
    | .collecting cause => some (x.unsaved cause)
    | .saving cause _ => some (x.unsaved cause)
    | _ => none
  | .limit =>
    match x.activity, x.waiting with
    | .agent, [] => some (x.interrupt x.stage.completed)
    | _, _ => none
  | .cancel => x.cancel
  | .detachedSave =>
    match x.detached with
    | save :: rest => some (x.detachedStep save rest)
    | [] => none
  | .setStage stage =>
    match x.activity, x.waiting with
    | .committing, [] =>
      if stage ∈ [Stage.rendering, .writing, .refreshing] then
        some { x with stage := stage }
      else none
    | _, _ => none
  | .complete =>
    match x.activity, x.waiting with
    | .committing, [] => some { x with activity := .completed }
    | _, _ => none
  | .fail =>
    match x.activity, x.waiting with
    | .agent, [] => some { x with activity := .ended }
    | .committing, [] => some { x with activity := .ended }
    | _, _ => none
  | .restart =>
    match x.activity with
    | .completed => none
    | _ => some { x with activity := .ended, waiting := [], detached := [] }
  | .resume base sourceUnitsSignature =>
    match x.activity with
    | .ended => some (x.resume base sourceUnitsSignature)
    | _ => none
  | .resumeFails base sourceUnitsSignature =>
    match x.activity with
    | .ended => some (x.resumeFails base sourceUnitsSignature)
    | _ => none

/-- The first task of a chain. -/
def start (base : Workspace) (sourceUnitsSignature : Str) : Chain where
  gate := .closed
  stage := .sourceCoverage
  workspace := base
  sourceUnitsSignature := sourceUnitsSignature
  dirs := .empty
  activity := .agent
  waiting := []
  detached := []
  coverage := none
  candidates := none

end Chain

/-!
# Gates and recorded phases

The gates in memory and the completed stage that a checkpoint stores stay in
step as long as no interruption meets a phase that is recorded and closed
again.
-/

variable {config : MiningConfig}

/-!
# The claim about a step
-/

/-- The gates that a stored checkpoint opens. -/
def opens : Option Checkpoint -> PhaseGate
  | none => .closed
  | some c => .resumed c.completedStage

/-- The new checkpoint is in place. -/
def SaveStep.installed : SaveStep -> Bool
  | .discardBackup => true
  | .markTask => true
  | _ => false

/-- The checkpoint has the files that a save of the workspace has. -/
def Checkpoint.Holds (config : MiningConfig) (w : Workspace)
    (c : Checkpoint) : Prop :=
  forall path payload, (path, payload) ∈ c.files <->
    w.find path = some payload ∧
      (inCheckout path = true ∨
        path = readlistPath ∧ payload.length ≤ config.targetTotalBytes)

namespace Chain

variable {x y : Chain}

/-- A save is over once its checkpoint is installed and the task no longer
waits for it.  The checkpoint names open gates, and holds the workspace. -/
structure SavedOpen (config : MiningConfig) (x y : Chain) : Prop where
  gates : forall cause save, x.activity = .saving cause save ->
    save.next.installed = true ->
      (forall save', y.activity ≠ .saving cause save') ->
        (opens (some save.checkpoint)).Within y.gate
  files : forall cause save, x.activity = .saving cause save ->
    save.checkpoint.Holds config x.workspace

/-- The files that a resumed task starts with. -/
def Restores (x y : Chain) (base : Workspace) : Prop :=
  forall c, x.dirs.destination = some c ->
    y.activity = .ended ∨
      forall path, (path ∉ c.files.map Prod.fst ->
          y.workspace.find path = base.find path) ∧
        forall payload, (path, payload) ∈ c.files ->
          y.workspace.find path = some payload

def StepInOrder (config : MiningConfig) (x y : Chain) : ChainStep -> Prop
  | .validate _ =>
    y.activity = .committing ->
      x.coverage = some true ∧ x.candidates = some true
  | .restart =>
    (forall save, save ∈ x.saves ->
      y.dirs.destination = some save.checkpoint ∨
        y.dirs.destination = save.previous) ∧ SavedOpen config x y
  | .resume base _ => y.gate.Within x.gate ∧ Restores x y base
  | .resumeFails _ _ => y.gate.Within x.gate
  | _ => SavedOpen config x y

/-- The handler of an interruption is saving already. -/
def Interrupting (x : Chain) : Prop :=
  exists completed, x.activity = .collecting (.interruption completed) ∨
    exists save, x.activity = .saving (.interruption completed) save

/-- No call runs while a submission waits, each interruption finds the recorded
gates open, and no callback fails and no process ends at the wrong moment of a
save. -/
def InStep (x : Chain) : ChainStep -> Prop
  | .suspend => False
  | .limit => (PhaseGate.resumed x.stage.completed).Within x.gate
  | .cancel =>
    x.Interrupting ∨
      (PhaseGate.resumed x.stage.completedAtCancel).Within x.gate
  | .raise =>
    forall phase save, x.activity = .saving (.submission phase) save ->
      save.next.installed = false
  | .fail => (opens x.dirs.destination).Within x.gate
  | .restart =>
    (opens x.dirs.destination).Within x.gate ∧
      forall save, save ∈ x.saves -> save.next = .install ->
        save.previous = none
  | _ => True

/-!
# The invariant
-/

/-- The stage stands for at least what the checkpoint opens, or for a phase
whose gate is closed. -/
def Backed (stage : Stage) (gate : PhaseGate) (stored : Option Checkpoint) :
    Prop :=
  (opens stored).Within (.resumed stage.completed) ∨
    gate.coveragePassed = false ∧ stage.completed ≠ none

/-- The gate while a valid submission waits for its callback. -/
def gateBefore : Phase -> PhaseGate
  | .sourceCoverage => .closed
  | .candidateKnowledge => ⟨true, false⟩

structure SaveOk (config : MiningConfig) (x : Chain)
    (completed : Option Phase) (save : Save) : Prop where
  saving : Saving save.checkpoint save.previous x.dirs save.next
  stage : save.checkpoint.completedStage = completed
  holds : save.checkpoint.Holds config x.workspace

structure DetachedOk (x : Chain) (save : Save) : Prop where
  saving : Saving save.checkpoint save.previous x.dirs save.next
  checkpoint : (opens (some save.checkpoint)).Within x.gate
  previous : (opens save.previous).Within x.gate

def Steady (config : MiningConfig) (x : Chain) : Activity -> Prop
  | .agent => Backed x.stage x.gate x.dirs.destination
  | .validating (.phase phase) =>
    Backed x.stage x.gate x.dirs.destination ∧ x.gate = gateBefore phase
  | .validating .bundle =>
    Backed x.stage x.gate x.dirs.destination ∧ x.gate = ⟨true, true⟩
  | .reporting phase =>
    Backed x.stage x.gate x.dirs.destination ∧ x.gate = gateBefore phase ∧
      (x.workspace.find config.runManifest).isSome
  | .collecting (.submission phase) =>
    x.gate = gateBefore phase ∧ x.stage = phase.nextStage ∧
      (x.workspace.find config.runManifest).isSome
  | .collecting (.interruption completed) =>
    (PhaseGate.resumed completed).Within x.gate ∧
      (opens x.dirs.destination).Within x.gate
  | .saving (.submission phase) save =>
    SaveOk config x (some phase) save ∧ x.gate = gateBefore phase ∧
      x.stage = phase.nextStage
  | .saving (.interruption completed) save =>
    SaveOk config x completed save ∧
      (PhaseGate.resumed completed).Within x.gate ∧
      (opens save.previous).Within x.gate
  | .committing => x.gate = ⟨true, true⟩
  | .completed => True
  | .ended =>
    (opens x.dirs.destination).Within x.gate ∧ x.detached.length ≤ 1 ∧
      forall save, save ∈ x.detached -> x.DetachedOk save

structure Inv (config : MiningConfig) (x : Chain) : Prop where
  order : x.gate.candidatesPassed = true -> x.gate.coveragePassed = true
  coverage : x.gate.coveragePassed = true -> x.coverage = some true
  candidates : x.gate.candidatesPassed = true -> x.candidates = some true
  alone : x.waiting = []
  quiet : x.activity ≠ .ended -> x.detached = []
  steady : x.Steady config x.activity

/-!
# Stages and gates
-/

theorem completed_nextStage (phase : Phase) :
    phase.nextStage.completed = some phase := by
  cases phase with
  | sourceCoverage => rfl
  | candidateKnowledge => rfl

theorem resumed_completed_within (stage : Stage) :
    (resumed stage.completed).Within
      (.resumed stage.completedAtCancel) := by
  cases stage with
  | rendering => exact closed_within _
  | writing => exact closed_within _
  | refreshing => exact closed_within _
  | _ => exact PhaseGate.Within.refl _

theorem within_open (g : PhaseGate) : g.Within ⟨true, true⟩ :=
  ⟨fun _ => rfl, fun _ => rfl⟩

theorem not_within_gateBefore (phase : Phase) :
    ¬ (resumed phase.nextStage.completedAtCancel).Within
      (gateBefore phase) := by
  cases phase with
  | sourceCoverage => decide
  | candidateKnowledge => decide

theorem Backed.within {stage : Stage} {gate : PhaseGate}
    {stored : Option Checkpoint} (h : Backed stage gate stored)
    (hstage : (resumed stage.completed).Within gate) :
    (opens stored).Within gate := by
  rcases h with hopens | ⟨hclosed, hsome⟩
  · exact hopens.trans hstage
  have hopen : gate.coveragePassed = true := by
    apply hstage.1
    cases hcompleted : stage.completed with
    | none => exact absurd hcompleted hsome
    | some phase =>
      cases phase with
      | sourceCoverage => rfl
      | candidateKnowledge => rfl
  rw [hclosed] at hopen
  cases hopen

theorem Backed.coverageClosed {stage : Stage} {gate gate' : PhaseGate}
    {stored : Option Checkpoint} (h : Backed stage gate stored)
    (hclosed : gate.coveragePassed = false -> gate'.coveragePassed = false) :
    Backed stage gate' stored := by
  rcases h with hopens | ⟨hwas, hsome⟩
  · exact .inl hopens
  · exact .inr ⟨hclosed hwas, hsome⟩

theorem backed_none (stage : Stage) (gate : PhaseGate) :
    Backed stage gate none :=
  Or.inl (closed_within _)

theorem backed_nextStage (phase : Phase) (stored : Option Checkpoint) :
    Backed phase.nextStage (gateBefore phase) stored := by
  cases phase with
  | sourceCoverage =>
    right
    constructor
    · rfl
    · nofun
  | candidateKnowledge => exact .inl (within_open _)

theorem SaveOk.opens_within {completed : Option Phase} {save : Save}
    (h : SaveOk config x completed save)
    (hcompleted : (resumed completed).Within x.gate) :
    (opens (some save.checkpoint)).Within x.gate := by
  rw [opens, h.stage]
  exact hcompleted

theorem DetachedOk.destination {save : Save} (h : x.DetachedOk save) :
    (opens x.dirs.destination).Within x.gate := by
  rcases h.saving.destination with hnew | hold | ⟨_, hnone⟩
  · rw [hnew]
    exact h.checkpoint
  · rw [hold]
    exact h.previous
  · rw [hnone]
    exact closed_within _

end Chain

end Compile
end OpenViking
