import OpenViking.Compile.MiningPhases

/-!
# No phase is skipped

What one step of a chain keeps, and with it every run.
-/

namespace OpenViking
namespace Compile

open Paths Interleaving PhaseGate

variable {config : MiningConfig}

namespace Chain

variable {x y : Chain}

variable {activity : Activity}

theorem Inv.steadyAt (h : x.Inv config)
    (hactivity : x.activity = activity) : x.Steady config activity :=
  hactivity ▸ h.steady

theorem Inv.quietAt (h : x.Inv config)
    (hactivity : x.activity = activity) (hne : activity ≠ .ended) :
    x.detached = [] :=
  h.quiet (hactivity ▸ hne)

theorem Inv.move (h : x.Inv config) (hgate : y.gate = x.gate)
    (hcoverage : y.coverage = x.coverage)
    (hcandidates : y.candidates = x.candidates)
    (hwaiting : y.waiting = x.waiting)
    (hquiet : y.activity ≠ .ended -> y.detached = [])
    (hsteady : y.Steady config y.activity) : y.Inv config := by
  constructor
  · rw [hgate]
    exact h.order
  · rw [hgate, hcoverage]
    exact h.coverage
  · rw [hgate, hcandidates]
    exact h.candidates
  · rw [hwaiting]
    exact h.alone
  · exact hquiet
  · exact hsteady

theorem steady_ended (hopens : (opens x.dirs.destination).Within x.gate)
    (hquiet : x.detached = []) : x.Steady config .ended := by
  refine ⟨hopens, ?_, ?_⟩
  · rw [hquiet]
    exact Nat.zero_le _
  · intro save hsave
    rw [hquiet] at hsave
    cases hsave

/-!
# Submissions
-/

section

variable (h : x.Inv config) (hactivity : x.activity = .agent)

include h hactivity

theorem Inv.submitSourceCoverage : x.submitSourceCoverage.Inv config := by
  have hbacked : Backed x.stage x.gate x.dirs.destination := h.steadyAt hactivity
  have hquiet := h.quietAt hactivity nofun
  exact ⟨nofun, nofun, nofun, h.alone, fun _ => hquiet,
    hbacked.coverageClosed fun _ => rfl, rfl⟩

theorem Inv.submitCandidateKnowledge :
    x.submitCandidateKnowledge.Inv config := by
  have hbacked : Backed x.stage x.gate x.dirs.destination := h.steadyAt hactivity
  have hquiet := h.quietAt hactivity nofun
  have hbacked' : Backed x.stage { x.gate with candidatesPassed := false }
      x.dirs.destination := hbacked.coverageClosed id
  refine ⟨nofun, h.coverage, nofun, h.alone, fun _ => hquiet, ?_⟩
  show Steady config x.submitCandidateKnowledge
    (if x.gate.coveragePassed then .validating (.phase .candidateKnowledge)
      else .agent)
  split
  case isTrue hopen =>
    refine ⟨hbacked', ?_⟩
    show (⟨x.gate.coveragePassed, false⟩ : PhaseGate) = ⟨true, false⟩
    rw [hopen]
  case isFalse => exact hbacked'

theorem Inv.submitWikiBundle : x.submitWikiBundle.Inv config := by
  rw [Chain.submitWikiBundle]
  split
  case isTrue hopen =>
    refine h.move rfl rfl rfl rfl ?_ ?_
    · exact fun _ => h.quietAt hactivity nofun
    refine ⟨h.steadyAt hactivity, ?_⟩
    have hcoverage := h.order hopen
    show x.gate = ⟨true, true⟩
    cases hgate : x.gate with
    | mk coveragePassed candidatesPassed =>
      rw [hgate] at hopen hcoverage
      cases hopen
      cases hcoverage
      rfl
  case isFalse => exact h

end

section

variable {submission : Submission} (h : x.Inv config)
  (hactivity : x.activity = .validating submission)

include h hactivity

theorem Inv.validate (valid : Bool) :
    (x.validate config submission valid).Inv config := by
  have hquiet := h.quietAt hactivity nofun
  have hsteady := h.steadyAt hactivity
  cases submission with
  | phase phase =>
    refine h.move rfl rfl rfl rfl (fun _ => hquiet) ?_
    show Steady config (x.validate config (.phase phase) valid)
      (if x.passes config valid then .reporting phase else .agent)
    split
    case isTrue hpasses =>
      exact ⟨hsteady.1, hsteady.2, (Bool.and_eq_true_iff.mp hpasses).2⟩
    case isFalse => exact hsteady.1
  | bundle =>
    refine h.move rfl rfl rfl rfl (fun _ => hquiet) ?_
    show Steady config (x.validate config .bundle valid)
      (if valid then .committing else .agent)
    split
    case isTrue => exact hsteady.2
    case isFalse => exact hsteady.1

theorem Inv.bundle_in_order {valid : Bool}
    (haccepted : (x.validate config submission valid).activity = .committing) :
    x.coverage = some true ∧ x.candidates = some true := by
  have hsteady := h.steadyAt hactivity
  cases submission with
  | phase phase =>
    change (if x.passes config valid then Activity.reporting phase else .agent) =
      .committing at haccepted
    split at haccepted
    case isTrue => cases haccepted
    case isFalse => cases haccepted
  | bundle =>
    have hgate : x.gate = ⟨true, true⟩ := hsteady.2
    constructor
    · exact h.coverage (by rw [hgate])
    · exact h.candidates (by rw [hgate])

end

variable {phase : Phase}

/-- A phase is accepted when its callback returns. -/
theorem Inv.accept (h : x.Inv config)
    (hquiet : x.detached = []) (hgate : x.gate = gateBefore phase)
    (hstage : x.stage = phase.nextStage)
    (hstored : exists c, x.dirs.destination = some c ∧
      c.completedStage = some phase) : (x.accept phase).Inv config := by
  rcases hstored with ⟨c, hdestination, hcompleted⟩
  have hbacked : forall gate, Backed x.stage gate x.dirs.destination := by
    intro gate
    left
    rw [hdestination, hstage, opens, hcompleted, completed_nextStage]
    exact PhaseGate.Within.refl _
  cases phase with
  | sourceCoverage =>
    have hclosed : x.gate.candidatesPassed ≠ true := by
      rw [hgate]
      exact Bool.false_ne_true
    exact ⟨fun hopen => absurd hopen hclosed, fun _ => rfl,
      fun hopen => absurd hopen hclosed, h.alone, fun _ => hquiet, hbacked _⟩
  | candidateKnowledge =>
    have hcoverage : x.gate.coveragePassed = true := by
      rw [hgate]
      rfl
    exact ⟨fun _ => hcoverage, fun _ => h.coverage hcoverage, fun _ => rfl,
      h.alone, fun _ => hquiet, hbacked _⟩

theorem accept_gate (hgate : x.gate = gateBefore phase) :
    (resumed (some phase)).Within (x.accept phase).gate := by
  cases phase with
  | sourceCoverage =>
    constructor
    · exact fun _ => rfl
    · nofun
  | candidateKnowledge =>
    constructor
    · intro _
      show x.gate.coveragePassed = true
      rw [hgate]
      rfl
    · exact fun _ => rfl

/-!
# The save of a checkpoint
-/

variable {cause : Cause}

theorem Inv.unsaved (h : x.Inv config)
    (hquiet : x.detached = [])
    (hbacked : forall phase, cause = .submission phase ->
      Backed x.stage x.gate x.dirs.destination)
    (hended : forall completed, cause = .interruption completed ->
      (opens x.dirs.destination).Within x.gate) :
    (x.unsaved cause).Inv config := by
  cases cause with
  | submission phase =>
    exact h.move rfl rfl rfl rfl (fun _ => hquiet) (hbacked phase rfl)
  | interruption completed =>
    exact h.move rfl rfl rfl rfl (fun _ => hquiet)
      (steady_ended (hended completed rfl) hquiet)

theorem backed_submitting (hgate : x.gate = gateBefore phase)
    (hstage : x.stage = phase.nextStage) (stored : Option Checkpoint) :
    Backed x.stage x.gate stored := by
  rw [hgate, hstage]
  exact backed_nextStage phase stored

theorem completedStage_submission (phase : Phase) :
    (Cause.submission phase).completedStage = some phase :=
  completed_nextStage phase

theorem Inv.collect (h : x.Inv config)
    (hactivity : x.activity = .collecting cause) :
    (x.collect config cause).Inv config := by
  have hquiet := h.quietAt hactivity nofun
  have hsteady := h.steadyAt hactivity
  have hbacked : forall phase, cause = .submission phase ->
      Backed x.stage x.gate x.dirs.destination := by
    intro phase heq
    rw [heq] at hsteady
    exact backed_submitting hsteady.1 hsteady.2.1 _
  have hended : forall completed, cause = .interruption completed ->
      (opens x.dirs.destination).Within x.gate := by
    intro completed heq
    rw [heq] at hsteady
    exact hsteady.2
  rw [Chain.collect]
  split
  case h_1 => exact h.unsaved hquiet hbacked hended
  case h_2 hcollect =>
    cases cause with
    | submission phase =>
      -- The run manifest is in the workspace.
      rcases Option.isSome_iff_exists.mp hsteady.2.2 with ⟨payload, hfind⟩
      have hmem := (mem_collectFiles hcollect).mpr
        ⟨hfind, .inl config.runManifest_inCheckout⟩
      cases hmem
    | interruption completed =>
      exact h.move rfl rfl rfl rfl (fun _ => hquiet)
        (steady_ended (hended completed rfl) hquiet)
  case h_3 file files hcollect =>
    have hholds : Checkpoint.Holds config x.workspace
        ⟨cause.completedStage, x.sourceUnitsSignature, file :: files,
          nodup_collectFiles hcollect⟩ :=
      fun path payload => mem_collectFiles hcollect
    cases cause with
    | submission phase =>
      refine h.move rfl rfl rfl rfl (fun _ => hquiet) ?_
      exact ⟨⟨rfl, completedStage_submission phase, hholds⟩, hsteady.1,
        hsteady.2.1⟩
    | interruption completed =>
      refine h.move rfl rfl rfl rfl (fun _ => hquiet) ?_
      exact ⟨⟨rfl, rfl, hholds⟩, hsteady.1, hsteady.2⟩

variable {save : Save}

theorem Inv.saveStep (h : x.Inv config)
    (hactivity : x.activity = .saving cause save) :
    (x.saveStep cause save).Inv config := by
  have hquiet := h.quietAt hactivity nofun
  have hsteady := h.steadyAt hactivity
  rw [Chain.saveStep]
  cases hnext : save.next.next with
  | some next =>
    cases cause with
    | submission phase =>
      rcases hsteady with ⟨hsave, hgate, hstage⟩
      refine h.move rfl rfl rfl rfl (fun _ => hquiet) ?_
      exact ⟨⟨hsave.saving.perform hnext, hsave.stage, hsave.holds⟩,
        hgate, hstage⟩
    | interruption completed =>
      rcases hsteady with ⟨hsave, hwithin, hprevious⟩
      refine h.move rfl rfl rfl rfl (fun _ => hquiet) ?_
      exact ⟨⟨hsave.saving.perform hnext, hsave.stage, hsave.holds⟩,
        hwithin, hprevious⟩
  | none =>
    cases cause with
    | submission phase =>
      rcases hsteady with ⟨hsave, hgate, hstage⟩
      have hmoved : Inv config { x with
          dirs := save.next.perform save.checkpoint x.dirs
          activity := .agent } :=
        h.move rfl rfl rfl rfl (fun _ => hquiet) (backed_submitting hgate hstage _)
      exact hmoved.accept hquiet hgate hstage
        ⟨save.checkpoint, hsave.saving.done hnext, hsave.stage⟩
    | interruption completed =>
      rcases hsteady with ⟨hsave, hwithin, hprevious⟩
      refine h.move rfl rfl rfl rfl (fun _ => hquiet) (steady_ended ?_ hquiet)
      show (opens (save.next.perform save.checkpoint
        x.dirs).destination).Within x.gate
      rw [hsave.saving.done hnext]
      exact hsave.opens_within hwithin

variable {completed : Option Phase}

theorem opens_interrupted
    (hsave : SaveOk config x completed save)
    (hwithin : (resumed completed).Within x.gate)
    (hprevious : (opens save.previous).Within x.gate) : x.DetachedOk save :=
  ⟨hsave.saving, hsave.opens_within hwithin, hprevious⟩

theorem Inv.raise (h : x.Inv config)
    (hstep : x.step config .raise = some y) : y.Inv config := by
  rw [step] at hstep
  split at hstep
  case h_1 phase hactivity =>
    cases hstep
    have hsteady := h.steadyAt hactivity
    have hquiet := h.quietAt hactivity nofun
    exact h.move rfl rfl rfl rfl (fun _ => hquiet) hsteady.1
  case h_2 cause hactivity =>
    cases hstep
    have hsteady := h.steadyAt hactivity
    refine h.unsaved (h.quietAt hactivity nofun) ?_ ?_
    · intro phase heq
      rw [heq] at hsteady
      exact backed_submitting hsteady.1 hsteady.2.1 _
    · intro completed heq
      rw [heq] at hsteady
      exact hsteady.2
  case h_3 cause save hactivity =>
    cases hstep
    have hsteady := h.steadyAt hactivity
    refine h.unsaved (h.quietAt hactivity nofun) ?_ ?_
    · intro phase heq
      rw [heq] at hsteady
      exact backed_submitting hsteady.2.1 hsteady.2.2 _
    · intro completed heq
      rw [heq] at hsteady
      exact (opens_interrupted hsteady.1 hsteady.2.1 hsteady.2.2).destination
  case h_4 => cases hstep

theorem Inv.detachedStep (h : x.Inv config) {rest : List Save}
    (hdetached : x.detached = save :: rest) :
    (x.detachedStep save rest).Inv config := by
  have hended : x.activity = .ended := by
    by_contra hne
    rw [h.quiet hne] at hdetached
    cases hdetached
  rcases h.steadyAt hended with ⟨_, hlength, hall⟩
  have hrest : rest = [] := by
    rw [hdetached] at hlength
    exact List.eq_nil_of_length_eq_zero
      (Nat.le_zero.mp (Nat.le_of_succ_le_succ hlength))
  have hsave := hall save (hdetached ▸ List.mem_cons_self)
  have hsteady : Steady config (x.detachedStep save rest) .ended := by
    rw [Chain.detachedStep, hrest]
    cases hnext : save.next.next with
    | some next =>
      have hstill : DetachedOk { x with
          dirs := save.next.perform save.checkpoint x.dirs
          detached := [{ save with next := next }] }
          { save with next := next } :=
        ⟨hsave.saving.perform hnext, hsave.checkpoint, hsave.previous⟩
      refine ⟨hstill.destination, Nat.le_refl _, ?_⟩
      intro save' hsave'
      rw [List.mem_singleton.mp hsave']
      exact hstill
    | none =>
      refine steady_ended ?_ rfl
      show (opens (save.next.perform save.checkpoint
        x.dirs).destination).Within x.gate
      rw [hsave.saving.done hnext]
      exact hsave.checkpoint
  refine h.move rfl rfl rfl rfl (fun hne => absurd hended hne) ?_
  show Steady config (x.detachedStep save rest) x.activity
  rw [hended]
  exact hsteady

/-!
# Interruptions
-/

theorem Inv.interrupt (h : x.Inv config) (hquiet : x.detached = [])
    (hwithin : (resumed completed).Within x.gate)
    (hopens : (opens x.dirs.destination).Within x.gate) :
    (x.interrupt completed).Inv config :=
  h.move rfl rfl rfl rfl (fun _ => hquiet) ⟨hwithin, hopens⟩

theorem not_interrupting (hactivity : x.activity = activity)
    (hcollecting : forall completed,
      activity ≠ .collecting (.interruption completed))
    (hsaving : forall completed save,
      activity ≠ .saving (.interruption completed) save) :
    ¬ x.Interrupting := by
  intro h
  rcases h with ⟨completed, hcollect | ⟨save, hsave⟩⟩
  · exact hcollecting completed (hactivity.symm.trans hcollect)
  · exact hsaving completed save (hactivity.symm.trans hsave)

theorem InStep.within (hok : x.InStep .cancel) (hnot : ¬ x.Interrupting) :
    (resumed x.stage.completedAtCancel).Within x.gate :=
  hok.resolve_left hnot

theorem not_inStep_submitting (hnot : ¬ x.Interrupting)
    (hgate : x.gate = gateBefore phase) (hstage : x.stage = phase.nextStage) :
    ¬ x.InStep .cancel := by
  intro hok
  have hwithin := InStep.within hok hnot
  rw [hgate, hstage] at hwithin
  exact not_within_gateBefore phase hwithin

theorem Inv.saves_eq (h : x.Inv config) (hquiet : x.detached = [])
    (hactivity : x.activity.saves = []) : x.saves = [] := by
  rw [saves, hactivity, h.alone, hquiet]
  rfl

theorem Inv.interruptCalls (h : x.Inv config) (hok : x.InStep .cancel)
    (hactivity : x.activity = activity) (hsaves : activity.saves = [])
    (hne : activity ≠ .ended)
    (hcollecting : forall completed,
      activity ≠ .collecting (.interruption completed))
    (hsaving : forall completed save,
      activity ≠ .saving (.interruption completed) save)
    (hbacked : Backed x.stage x.gate x.dirs.destination) :
    x.interruptCalls.Inv config := by
  have hwithin := InStep.within hok
    (not_interrupting hactivity hcollecting hsaving)
  have hquiet := h.quietAt hactivity hne
  refine h.move rfl rfl rfl h.alone.symm ?_ ?_
  · intro _
    exact h.saves_eq hquiet (hactivity ▸ hsaves)
  · exact ⟨hwithin,
      hbacked.within ((resumed_completed_within x.stage).trans hwithin)⟩

theorem Inv.cancel (h : x.Inv config) (hok : x.InStep .cancel)
    (hstep : x.cancel = some y) : y.Inv config := by
  rw [Chain.cancel] at hstep
  cases hactivity : x.activity with
  | agent =>
    rw [hactivity] at hstep
    cases hstep
    exact h.interruptCalls hok hactivity rfl nofun (fun _ => nofun)
      (fun _ _ => nofun) (h.steadyAt hactivity)
  | validating submission =>
    rw [hactivity] at hstep
    cases hstep
    have hsteady := h.steadyAt hactivity
    cases submission with
    | phase phase =>
      exact h.interruptCalls hok hactivity rfl nofun (fun _ => nofun)
        (fun _ _ => nofun) hsteady.1
    | bundle =>
      exact h.interruptCalls hok hactivity rfl nofun (fun _ => nofun)
        (fun _ _ => nofun) hsteady.1
  | reporting phase =>
    rw [hactivity] at hstep
    cases hstep
    exact h.interruptCalls hok hactivity rfl nofun (fun _ => nofun)
      (fun _ _ => nofun) (h.steadyAt hactivity).1
  | committing =>
    rw [hactivity] at hstep
    cases hstep
    have hgate : x.gate = ⟨true, true⟩ := h.steadyAt hactivity
    have hquiet := h.quietAt hactivity nofun
    refine h.move rfl rfl rfl h.alone.symm ?_ ?_
    · intro _
      exact h.saves_eq hquiet (hactivity ▸ rfl)
    · constructor
      · show (resumed x.stage.completedAtCancel).Within x.gate
        rw [hgate]
        exact within_open _
      · show (opens x.dirs.destination).Within x.gate
        rw [hgate]
        exact within_open _
  | collecting cause =>
    rw [hactivity] at hstep
    cases cause with
    | submission phase =>
      rcases h.steadyAt hactivity with ⟨hgate, hstage, _⟩
      exact absurd hok (not_inStep_submitting (not_interrupting hactivity
        (fun _ => nofun) (fun _ _ => nofun)) hgate hstage)
    | interruption completed =>
      cases hstep
      have hquiet := h.quietAt hactivity nofun
      exact h.move rfl rfl rfl rfl (fun _ => hquiet)
        (steady_ended (h.steadyAt hactivity).2 hquiet)
  | saving cause save =>
    rw [hactivity] at hstep
    cases cause with
    | submission phase =>
      rcases h.steadyAt hactivity with ⟨_, hgate, hstage⟩
      exact absurd hok (not_inStep_submitting (not_interrupting hactivity
        (fun _ => nofun) (fun _ _ => nofun)) hgate hstage)
    | interruption completed =>
      cases hstep
      rcases h.steadyAt hactivity with ⟨hsave, hwithin, hprevious⟩
      have hdetached := opens_interrupted hsave hwithin hprevious
      have hquiet := h.quietAt hactivity nofun
      refine h.move rfl rfl rfl rfl (fun hne => absurd rfl hne) ?_
      refine ⟨hdetached.destination, ?_, ?_⟩
      · show (save :: x.detached).length ≤ 1
        rw [hquiet]
        exact Nat.le_refl _
      · intro save' hsave'
        change save' ∈ save :: x.detached at hsave'
        rw [hquiet] at hsave'
        rw [List.mem_singleton.mp hsave']
        exact ⟨hdetached.saving, hdetached.checkpoint, hdetached.previous⟩
  | completed =>
    rw [hactivity] at hstep
    cases hstep
  | ended =>
    rw [hactivity] at hstep
    cases hstep

theorem Inv.restart (h : x.Inv config) (hok : x.InStep .restart) :
    Inv config { x with activity := .ended, waiting := [], detached := [] } :=
  h.move rfl rfl rfl h.alone.symm (fun _ => rfl) (steady_ended hok.1 rfl)

/-!
# A resumed task
-/

theorem resumed_order (completed : Option Phase)
    (h : (resumed completed).candidatesPassed = true) :
    (resumed completed).coveragePassed = true :=
  Bool.or_eq_true_iff.mpr (Or.inr h)

theorem Inv.begin (h : x.Inv config)
    (hwithin : (resumed completed).Within x.gate)
    (workspace : Workspace) (signature : Str) :
    (x.begin workspace signature completed).Inv config := by
  constructor
  · exact resumed_order completed
  · exact fun hopen => h.coverage (hwithin.1 hopen)
  · exact fun hopen => h.candidates (hwithin.2 hopen)
  · rfl
  · exact fun _ => rfl
  · exact backed_none _ _

theorem Inv.resumeFails (h : x.Inv config) (base : Workspace)
    (signature : Str) : (x.resumeFails base signature).Inv config := by
  have hclosed : (resumed none).Within x.gate :=
    closed_within x.gate
  have hbegin := h.begin hclosed base signature
  exact hbegin.move rfl rfl rfl rfl (fun _ => rfl)
    (steady_ended (closed_within _) rfl)

theorem Inv.resume (h : x.Inv config) (hactivity : x.activity = .ended)
    (base : Workspace) (signature : Str) :
    (x.resume base signature).Inv config := by
  rw [Chain.resume]
  rcases x.dirs.load_cases signature base with
    hload | hload | ⟨c, hdestination, hload⟩
  · rw [hload]
    have hclosed : (resumed none).Within x.gate :=
      closed_within x.gate
    exact h.begin hclosed base signature
  · rw [hload]
    exact h.resumeFails base signature
  · rw [hload]
    have hopens := (h.steadyAt hactivity).1
    rw [hdestination] at hopens
    exact h.begin hopens _ signature

/-!
# One step
-/

variable {l : ChainStep}

theorem Inv.step (h : x.Inv config) (hok : x.InStep l)
    (hstep : x.step config l = some y) : y.Inv config := by
  cases l with
  | write path payload =>
    simp only [Chain.step] at hstep
    split at hstep
    case h_1 hactivity =>
      cases hstep
      exact h.move rfl rfl rfl rfl h.quiet (hactivity ▸ h.steadyAt hactivity)
    case h_2 => cases hstep
  | remove path =>
    simp only [Chain.step] at hstep
    split at hstep
    case h_1 hactivity =>
      cases hstep
      exact h.move rfl rfl rfl rfl h.quiet (hactivity ▸ h.steadyAt hactivity)
    case h_2 => cases hstep
  | submitSourceCoverage =>
    simp only [Chain.step] at hstep
    split at hstep
    case h_1 hactivity =>
      cases hstep
      exact h.submitSourceCoverage hactivity
    case h_2 => cases hstep
  | submitCandidateKnowledge =>
    simp only [Chain.step] at hstep
    split at hstep
    case h_1 hactivity =>
      cases hstep
      exact h.submitCandidateKnowledge hactivity
    case h_2 => cases hstep
  | submitWikiBundle =>
    simp only [Chain.step] at hstep
    split at hstep
    case h_1 hactivity =>
      cases hstep
      exact h.submitWikiBundle hactivity
    case h_2 => cases hstep
  | validate valid =>
    simp only [Chain.step] at hstep
    split at hstep
    case h_1 submission hactivity =>
      cases hstep
      exact h.validate hactivity valid
    case h_2 => cases hstep
  | suspend => exact absurd hok id
  | wake index =>
    simp only [Chain.step, h.alone, List.getElem?_nil] at hstep
    cases hactivity : x.activity with
    | _ =>
      rw [hactivity] at hstep
      cases hstep
  | report =>
    simp only [Chain.step] at hstep
    split at hstep
    case h_1 phase hactivity =>
      cases hstep
      have hquiet := h.quietAt hactivity nofun
      rcases h.steadyAt hactivity with ⟨_, hgate, hmanifest⟩
      exact h.move rfl rfl rfl rfl (fun _ => hquiet) ⟨hgate, rfl, hmanifest⟩
    case h_2 => cases hstep
  | collect =>
    simp only [Chain.step] at hstep
    split at hstep
    case h_1 cause hactivity =>
      cases hstep
      exact h.collect hactivity
    case h_2 => cases hstep
  | save =>
    simp only [Chain.step] at hstep
    split at hstep
    case h_1 cause save hactivity =>
      cases hstep
      exact h.saveStep hactivity
    case h_2 => cases hstep
  | raise => exact h.raise hstep
  | limit =>
    simp only [Chain.step] at hstep
    split at hstep
    case h_1 hactivity _ =>
      cases hstep
      have hbacked : Backed x.stage x.gate x.dirs.destination :=
        h.steadyAt hactivity
      exact h.interrupt (h.quietAt hactivity nofun) hok (hbacked.within hok)
    case h_2 => cases hstep
  | cancel => exact h.cancel hok hstep
  | detachedSave =>
    simp only [Chain.step] at hstep
    split at hstep
    case h_1 save rest hdetached =>
      cases hstep
      exact h.detachedStep hdetached
    case h_2 => cases hstep
  | setStage stage =>
    simp only [Chain.step] at hstep
    split at hstep
    case h_1 hactivity _ =>
      split at hstep
      case isTrue =>
        cases hstep
        refine h.move rfl rfl rfl rfl h.quiet ?_
        rw [show x.activity = .committing from hactivity]
        exact h.steadyAt hactivity
      case isFalse => cases hstep
    case h_2 => cases hstep
  | complete =>
    simp only [Chain.step] at hstep
    split at hstep
    case h_1 hactivity _ =>
      cases hstep
      have hquiet := h.quietAt hactivity nofun
      exact h.move rfl rfl rfl rfl (fun _ => hquiet) trivial
    case h_2 => cases hstep
  | fail =>
    simp only [Chain.step] at hstep
    split at hstep
    case h_1 hactivity _ =>
      cases hstep
      have hquiet := h.quietAt hactivity nofun
      exact h.move rfl rfl rfl rfl (fun _ => hquiet) (steady_ended hok hquiet)
    case h_2 hactivity _ =>
      cases hstep
      have hquiet := h.quietAt hactivity nofun
      exact h.move rfl rfl rfl rfl (fun _ => hquiet) (steady_ended hok hquiet)
    case h_3 => cases hstep
  | restart =>
    simp only [Chain.step] at hstep
    split at hstep
    case h_1 => cases hstep
    case h_2 =>
      cases hstep
      exact h.restart hok
  | resume base signature =>
    simp only [Chain.step] at hstep
    split at hstep
    case h_1 hactivity =>
      cases hstep
      exact h.resume hactivity base signature
    case h_2 => cases hstep
  | resumeFails base signature =>
    simp only [Chain.step] at hstep
    split at hstep
    case h_1 =>
      cases hstep
      exact h.resumeFails base signature
    case h_2 => cases hstep

/-!
# What a step does in order
-/

section

variable (h : x.Inv config)

include h

theorem Inv.savedFiles (hactivity : x.activity = .saving cause save) :
    save.checkpoint.Holds config x.workspace := by
  have hsteady := h.steadyAt hactivity
  cases cause with
  | submission phase => exact hsteady.1.holds
  | interruption completed => exact hsteady.1.holds

/-- Every running save has its directories. -/
theorem Inv.saving_of_mem (hsave : save ∈ x.saves) :
    Saving save.checkpoint save.previous x.dirs save.next := by
  rw [saves, h.alone] at hsave
  rcases List.mem_append.mp hsave with hown | hdetached
  · rw [List.flatMap_nil, List.append_nil] at hown
    cases hactivity : x.activity with
    | saving cause save' =>
      have hsteady := h.steadyAt hactivity
      rw [hactivity] at hown
      rw [List.mem_singleton.mp hown]
      cases cause with
      | submission phase => exact hsteady.1.saving
      | interruption completed => exact hsteady.1.saving
    | _ =>
      rw [hactivity] at hown
      cases hown
  · have hended : x.activity = .ended := by
      by_contra hne
      rw [h.quiet hne] at hdetached
      cases hdetached
    exact ((h.steadyAt hended).2.2 save hdetached).saving

/-- The checkpoint of a save that the task leaves opens no closed gate. -/
theorem Inv.saved_gates (hok : x.InStep l) (hstep : x.step config l = some y)
    (hactivity : x.activity = .saving cause save)
    (hinstalled : save.next.installed = true)
    (hleft : forall save', y.activity ≠ .saving cause save') :
    (opens (some save.checkpoint)).Within y.gate := by
  have hsteady := h.steadyAt hactivity
  cases l with
  | suspend => exact absurd hok id
  | save =>
    simp only [Chain.step, hactivity, Option.some.injEq] at hstep
    rw [Chain.saveStep] at hstep
    cases hnext : save.next.next with
    | some next =>
      rw [hnext] at hstep
      rw [← hstep] at hleft
      exact absurd rfl (hleft { save with next := next })
    | none =>
      rw [hnext] at hstep
      rw [← hstep]
      cases cause with
      | submission phase =>
        rcases hsteady with ⟨hsave, hgate, _⟩
        rw [opens, hsave.stage]
        exact accept_gate hgate
      | interruption completed =>
        exact hsteady.1.opens_within hsteady.2.1
  | raise =>
    simp only [Chain.step, hactivity, Option.some.injEq] at hstep
    rw [← hstep]
    cases cause with
    | submission phase =>
      rw [hok phase save hactivity] at hinstalled
      cases hinstalled
    | interruption completed => exact hsteady.1.opens_within hsteady.2.1
  | cancel =>
    simp only [Chain.step, Chain.cancel, hactivity] at hstep
    cases cause with
    | submission phase =>
      rcases hsteady with ⟨_, hgate, hstage⟩
      refine absurd hok (not_inStep_submitting ?_ hgate hstage)
      exact not_interrupting hactivity (by rintro _ ⟨⟩) (by rintro _ _ ⟨⟩)
    | interruption completed =>
      cases hstep
      exact hsteady.1.opens_within hsteady.2.1
  | detachedSave =>
    have hquiet := h.quietAt hactivity (by rintro ⟨⟩)
    simp only [Chain.step, hquiet] at hstep
    cases hstep
  | restart =>
    simp only [Chain.step, hactivity, Option.some.injEq] at hstep
    rw [← hstep]
    have hmem : save ∈ x.saves := by
      rw [saves, hactivity]
      exact List.mem_append_left _ (List.mem_append_left _ List.mem_cons_self)
    have hsaving := h.saving_of_mem hmem
    have hopens := hok.1
    cases hnext : save.next with
    | discardBackup =>
      rw [hnext] at hsaving
      rw [show x.dirs.destination = some save.checkpoint from hsaving] at hopens
      exact hopens
    | markTask =>
      rw [hnext] at hsaving
      rw [show x.dirs.destination = some save.checkpoint from hsaving] at hopens
      exact hopens
    | _ =>
      rw [hnext] at hinstalled
      cases hinstalled
  | _ => simp [Chain.step, hactivity] at hstep

theorem Inv.savedOpen (hok : x.InStep l)
    (hstep : x.step config l = some y) : SavedOpen config x y :=
  ⟨fun _ _ hactivity => h.saved_gates hok hstep hactivity,
    fun _ _ hactivity => h.savedFiles hactivity⟩

theorem Inv.restart_leaves (hok : x.InStep .restart) (hsave : save ∈ x.saves) :
    x.dirs.destination = some save.checkpoint ∨
      x.dirs.destination = save.previous := by
  rcases (h.saving_of_mem hsave).destination with
    hnew | hold | ⟨hnext, hnone⟩
  · exact .inl hnew
  · exact .inr hold
  · right
    rw [hnone, hok.2 save hsave hnext]

theorem Inv.resume_in_order (hactivity : x.activity = .ended)
    (base : Workspace) (signature : Str) :
    (x.resume base signature).gate.Within x.gate ∧
      Restores x (x.resume base signature) base := by
  rw [Chain.resume]
  have hopens := (h.steadyAt hactivity).1
  cases hdestination : x.dirs.destination with
  | none =>
    have hload : x.dirs.load signature base = .nothing := by
      rw [CheckpointDirs.load, hdestination]
    rw [hload]
    constructor
    · exact closed_within _
    · intro c hc
      rw [hdestination] at hc
      cases hc
  | some stored =>
    rcases x.dirs.load_cases signature base with
      hload | hload | ⟨c, hc, hload⟩
    · rw [hload]
      constructor
      · exact closed_within _
      intro c hc
      rw [CheckpointDirs.load, hdestination] at hload
      change (if _ then Loaded.conflict
        else if _ then .restored _ _ else .conflict) = _ at hload
      split at hload
      · cases hload
      · split at hload
        · cases hload
        · cases hload
    · rw [hload]
      constructor
      · exact closed_within _
      · exact fun _ _ => .inl rfl
    · rw [hload]
      rw [hc] at hopens
      constructor
      · exact hopens
      intro c' hc'
      rw [hc] at hc'
      cases hc'
      right
      intro path
      constructor
      · exact fun hnot => Assoc.find_putAll_of_notMem base hnot
      · exact fun payload hmem =>
          Assoc.find_putAll_of_mem base c.distinct hmem

theorem Inv.stepInOrder (hok : x.InStep l) (hstep : x.step config l = some y) :
    StepInOrder config x y l := by
  cases l with
  | validate valid =>
    intro haccepted
    simp only [Chain.step] at hstep
    split at hstep
    case h_1 submission hactivity =>
      cases hstep
      exact h.bundle_in_order hactivity haccepted
    case h_2 => cases hstep
  | restart =>
    constructor
    · have hdirs : y.dirs = x.dirs := by
        simp only [Chain.step] at hstep
        split at hstep
        case h_1 => cases hstep
        case h_2 =>
          cases hstep
          rfl
      intro save hsave
      rw [hdirs]
      exact h.restart_leaves hok hsave
    · exact h.savedOpen hok hstep
  | resume base signature =>
    simp only [Chain.step] at hstep
    split at hstep
    case h_1 hactivity =>
      cases hstep
      exact h.resume_in_order hactivity base signature
    case h_2 => cases hstep
  | resumeFails base signature =>
    simp only [Chain.step] at hstep
    split at hstep
    case h_1 =>
      cases hstep
      exact closed_within _
    case h_2 => cases hstep
  | _ => exact h.savedOpen hok hstep

end

/-!
# Runs
-/

theorem Inv.start (base : Workspace) (signature : Str) :
    (start base signature).Inv config := by
  constructor
  · nofun
  · nofun
  · nofun
  · rfl
  · exact fun _ => rfl
  · exact backed_none _ _

/-- In a chain whose interruptions are in step, every step is in order. -/
theorem mining_phases_in_order {base : Workspace} {signature : Str}
    {ls : List ChainStep}
    (hmeets : Interleaving.Meets (step config) InStep (start base signature)
      ls) :
    Interleaving.Meets (step config)
      (fun x l => forall y, x.step config l = some y ->
        StepInOrder config x y l) (start base signature) ls :=
  meets_of_inv (step config)
    (fun h hok hstep => Inv.step h hok hstep)
    (fun h hok _ hstep => Inv.stepInOrder h hok hstep)
    (Inv.start base signature) hmeets

def sampleConfig : MiningConfig where
  targetTotalBytes := 100
  runManifest :=
    ⟨checkoutRoot ++ [Name.ofString "_mining", Name.ofString "run.json"],
      by decide⟩
  runManifest_inCheckout := by decide

def checkpointed : List ChainStep :=
  .collect :: List.replicate 6 .save

/-- A submission whose checkpoint is saved. -/
def submitted (submission : ChainStep) : List ChainStep :=
  submission :: .validate true :: .report :: checkpointed

/-- Steps that `InStep` asks nothing of. -/
def calm : ChainStep -> Bool
  | .suspend => false
  | .limit => false
  | .cancel => false
  | .raise => false
  | .fail => false
  | .restart => false
  | _ => true

theorem inStep_of_calm (h : calm l = true) (x : Chain) :
    x.InStep l := by
  cases l with
  | suspend => cases h
  | limit => cases h
  | cancel => cases h
  | raise => cases h
  | fail => cases h
  | restart => cases h
  | _ => trivial

theorem meets_of_calm (x : Chain) {ls : List ChainStep}
    (h : ls.all calm = true) :
    Interleaving.Meets (step config) InStep x ls :=
  meets_of_forall _ fun l hl =>
    inStep_of_calm (List.all_eq_true.mp h l hl)

/-- The coverage is accepted, the agent reaches its limit, and the resumed
task may go on with the candidates. -/
theorem mining_phases_in_order_resumed :
    (run (step sampleConfig) (start ∅ [])
        (.write sampleConfig.runManifest [1] ::
            submitted .submitSourceCoverage ++
          (.limit :: checkpointed ++ [.resume ∅ []]))).map Chain.gate =
        some ⟨true, false⟩ ∧
      Interleaving.Meets (step sampleConfig)
        (fun x l => forall y, x.step sampleConfig l = some y ->
          StepInOrder sampleConfig x y l) (start ∅ [])
        (.write sampleConfig.runManifest [1] ::
            submitted .submitSourceCoverage ++
          (.limit :: checkpointed ++ [.resume ∅ []])) := by
  constructor
  · decide +kernel
  apply mining_phases_in_order
  have hbefore : (run (step sampleConfig) (start ∅ [])
      (.write sampleConfig.runManifest [1] ::
        submitted .submitSourceCoverage)).any (fun x =>
      (PhaseGate.resumed x.stage.completed).Within x.gate) = true := by
    decide +kernel
  rcases (Option.any_eq_true _ _).mp hbefore with ⟨x, hrun, hwithin⟩
  apply meets_append _ (meets_of_calm _ (by decide)) hrun
  have hok : (PhaseGate.resumed x.stage.completed).Within x.gate :=
    of_decide_eq_true hwithin
  constructor
  · exact hok
  · exact fun y _ => meets_of_calm y (by decide)

/-- A rejected submission of the coverage closes both gates, and a cancelled
task opens them again when it is resumed: its bundle is accepted.  And a
process that ends between the two renames leaves no checkpoint.  And while the
candidates wait for their checkpoint, a submission of the coverage in the same
response is rejected: the candidates are accepted all the same. -/
theorem rejected_coverage_skipped :
    (run (step sampleConfig) (start ∅ [])
        (.write sampleConfig.runManifest [1] ::
          submitted .submitSourceCoverage ++
          submitted .submitCandidateKnowledge ++
          [.submitSourceCoverage, .validate false, .cancel] ++ checkpointed ++
          [.resume ∅ [], .submitWikiBundle, .validate true])).map (fun x =>
            (x.activity, x.coverage)) =
        some (.committing, some false) ∧
      (run (step sampleConfig) (start ∅ [])
        (.write sampleConfig.runManifest [1] ::
          submitted .submitSourceCoverage ++
          [.submitCandidateKnowledge, .validate true, .report, .collect, .save, .save,
            .save])).map (fun x => (x.dirs.destination.isSome,
              x.saves.map fun save => save.previous.isSome)) =
        some (false, [true]) ∧
      (run (step sampleConfig) (start ∅ [])
        (.write sampleConfig.runManifest [1] ::
          submitted .submitSourceCoverage ++
          [.submitCandidateKnowledge, .validate true, .report, .collect, .save, .save,
            .save, .restart, .resume ∅ []])).map (fun x =>
              x.workspace.find sampleConfig.runManifest) = some none ∧
      (run (step sampleConfig) (start ∅ [])
        (.write sampleConfig.runManifest [1] ::
          submitted .submitSourceCoverage ++
          [.submitCandidateKnowledge, .validate true, .suspend,
            .submitSourceCoverage, .validate false, .wake 0, .report] ++
          checkpointed ++ [.submitWikiBundle, .validate true])).map (fun x =>
            (x.activity, x.coverage)) = some (.committing, some false) := by
  decide +kernel

end Chain
end Compile
end OpenViking
