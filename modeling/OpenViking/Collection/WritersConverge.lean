import OpenViking.Collection.Rebuild

/-!
# Concurrent writers converge

A rebuild is published only if no mutation that changed the store has ended
since its generation was taken and none is in progress, so the published index
follows the store whenever the writers keep apart.
-/

namespace OpenViking
namespace Collection

open Paths Interleaving
open OpenViking.Vector

variable {term value posting : Type}

theorem Follows.congr {cfg : IndexConfig value posting}
    {n : NativeIndex term value posting} {s s' : Store term value}
    (h : n.Follows cfg s)
    (hsame : forall label, s'.cands.find label = s.cands.find label) :
    n.Follows cfg s' := by
  intro label
  rcases h label with ⟨hpoint, hpostings⟩
  rw [← hsame label] at hpoint
  rw [← oldFields_congr (hsame label)] at hpostings
  exact ⟨hpoint, hpostings⟩

/-!
# Writers
-/

namespace Phase

def busy : Phase term value -> Bool
  | .idle => false
  | _ => true

/-- The mutation has changed the store and not left the barrier. -/
def dirty : Phase term value -> Bool
  | .stored p _ => p.changed
  | .applied changed => changed
  | _ => false

end Phase

namespace Session

variable [DecidableEq posting] {cfg : IndexConfig value posting}
  {x x' : Session term value posting}

/-- No writer in the barrier has changed the store. -/
def NoDirty (x : Session term value posting) : Prop :=
  forall (i : Nat) (phase : Phase term value),
    x.writers[i]? = some phase -> phase.dirty = false

omit [DecidableEq posting] in
theorem noDirty_of_setPhase {i : Nat} {before after : Phase term value}
    (hwriter : x.writers[i]? = some before)
    (h : (x.setPhase i after).NoDirty)
    (hdirty : after.dirty = false -> before.dirty = false) : x.NoDirty := by
  intro j phase hj
  by_cases heq : j = i
  · rw [heq, hwriter] at hj
    cases hj
    apply hdirty
    exact h i after (getElem?_set_of_some hwriter)
  · apply h j phase
    rw [setPhase, List.getElem?_set_ne (Ne.symm heq)]
    exact hj

omit [DecidableEq posting] in
theorem commit_unchanged {p : Prepared term value} (h : p.changed = false)
    (s : Store term value) (base now : Nat) :
    (p.commit s base now).cands = s.cands := by
  cases p with
  | write rows ttl deltas => cases h
  | delete labels deltas => cases h
  | expire swept rows =>
    cases rows with
    | nil => rfl
    | cons first rest => cases h

variable {l : WriterStep term value}

/-- A step after which no writer is dirty has not changed the rows, unless it
is a writer that leaves with a change. -/
theorem noDirty_of_moves
    (h : Moves cfg x l x') (hclean : x'.NoDirty) :
    (exists i, l = .leave i ∧ x.writers[i]? = some (.applied true)) ∨
      (x.NoDirty ∧
        forall label, x'.store.cands.find label =
          x.store.cands.find label) := by
  cases h with
  | enter hwriter =>
    right
    exact ⟨noDirty_of_setPhase hwriter hclean fun _ => rfl, fun _ => rfl⟩
  | scan hwriter =>
    right
    exact ⟨noDirty_of_setPhase hwriter hclean fun _ => rfl, fun _ => rfl⟩
  | @read i p hreading =>
    right
    rcases writer_of_reading hreading with
      ⟨m, hwriter⟩ | ⟨now, swept, hwriter⟩
    · exact ⟨noDirty_of_setPhase hwriter hclean fun _ => rfl, fun _ => rfl⟩
    · exact ⟨noDirty_of_setPhase hwriter hclean fun _ => rfl, fun _ => rfl⟩
  | stamp hwriter =>
    right
    exact ⟨noDirty_of_setPhase hwriter hclean fun _ => rfl, fun _ => rfl⟩
  | refuse hwriter hser =>
    have hdirty := hclean _ _ (getElem?_set_of_some hwriter)
    cases hdirty
  | @commit i base now p hwriter hser =>
    have hdirty := hclean i (.stored p base)
      (getElem?_set_of_some hwriter)
    right
    refine ⟨noDirty_of_setPhase hwriter hclean fun _ => rfl, ?_⟩
    intro label
    show (p.commit x.store base now).cands.find label = _
    rw [commit_unchanged hdirty]
  | apply hwriter =>
    right
    exact ⟨noDirty_of_setPhase hwriter hclean fun h => h, fun _ => rfl⟩
  | @leave i changed hwriter =>
    cases changed with
    | true => exact Or.inl ⟨i, rfl, hwriter⟩
    | false =>
      right
      exact ⟨noDirty_of_setPhase hwriter hclean fun _ => rfl, fun _ => rfl⟩

omit [DecidableEq posting] in
theorem countP_setPhase {i : Nat} {before : Phase term value}
    (after : Phase term value) (hwriter : x.writers[i]? = some before) :
    (x.setPhase i after).writers.countP Phase.busy +
        (if before.busy then 1 else 0) =
      x.writers.countP Phase.busy + (if after.busy then 1 else 0) :=
  countP_set_of_some Phase.busy after hwriter

omit [DecidableEq posting] in
theorem countP_setPhase_busy {i : Nat} {before after : Phase term value}
    (hwriter : x.writers[i]? = some before) (hbefore : before.busy = true)
    (hafter : after.busy = true) :
    (x.setPhase i after).writers.countP Phase.busy =
      x.writers.countP Phase.busy := by
  have hcount := countP_setPhase after hwriter
  rw [if_pos hbefore, if_pos hafter] at hcount
  exact Nat.add_right_cancel hcount

theorem countP_of_moves
    (h : Moves cfg x l x') :
    match l with
    | .enter _ _ => x'.writers.countP Phase.busy =
        x.writers.countP Phase.busy + 1
    | .leave _ => x'.writers.countP Phase.busy + 1 =
        x.writers.countP Phase.busy
    | _ => x'.writers.countP Phase.busy = x.writers.countP Phase.busy := by
  cases h with
  | enter hwriter => exact countP_setPhase _ hwriter
  | scan hwriter => exact countP_setPhase_busy hwriter rfl rfl
  | read hreading =>
    rcases writer_of_reading hreading with
      ⟨m, hwriter⟩ | ⟨now, swept, hwriter⟩
    · exact countP_setPhase_busy hwriter rfl rfl
    · exact countP_setPhase_busy hwriter rfl rfl
  | stamp hwriter => exact countP_setPhase_busy hwriter rfl rfl
  | refuse hwriter hser =>
    exact countP_setPhase_busy hwriter rfl rfl
  | commit hwriter hser =>
    exact countP_setPhase_busy hwriter rfl rfl
  | apply hwriter =>
    exact countP_setPhase_busy hwriter rfl rfl
  | leave hwriter => exact countP_setPhase _ hwriter

end Session

/-!
# Rebuilds
-/

namespace Rebuild

def generation : Rebuild term value posting -> Option Nat
  | .snapped _ generation => some generation
  | .scanned _ generation _ => some generation
  | .built _ generation _ => some generation
  | .waiting _ generation _ => some generation
  | .exclusive _ generation _ => some generation
  | _ => none

def holds : Rebuild term value posting -> Bool
  | .exclusive _ _ _ => true
  | .finished => true
  | _ => false

def Covers [DecidableEq posting] (cfg : IndexConfig value posting)
    (s : Store term value) : Rebuild term value posting -> Prop
  | .scanned _ _ rows => forall timestamp clock,
      (NativeIndex.build cfg timestamp clock rows).Follows cfg s
  | .built _ _ index => index.Follows cfg s
  | .waiting _ _ index => index.Follows cfg s
  | .exclusive _ _ index => index.Follows cfg s
  | _ => True

theorem Covers.congr [DecidableEq posting] {cfg : IndexConfig value posting}
    {s s' : Store term value} {r : Rebuild term value posting}
    (h : r.Covers cfg s)
    (hsame : forall label, s'.cands.find label = s.cands.find label) :
    r.Covers cfg s' := by
  cases r with
  | scanned old generation rows =>
    exact fun timestamp clock => Follows.congr (h timestamp clock) hsame
  | idle => trivial
  | started old => trivial
  | snapped old generation => trivial
  | finished => trivial
  | _ => exact Follows.congr h hsame

end Rebuild

namespace Shared

variable [DecidableEq posting] {cfg : IndexConfig value posting}
  {x x' : Shared term value posting}

structure Good (cfg : IndexConfig value posting)
    (x : Shared term value posting) : Prop where
  session : x.session.Settled cfg
  active : x.barrier.activeMutations = x.session.writers.countP Phase.busy
  alone : x.barrier.publisher = true -> x.barrier.activeMutations = 0
  holder : forall (j : Nat) (r : Rebuild term value posting),
    x.rebuilds[j]? = some r -> r.holds = true -> x.barrier.publisher = true
  unique : forall (j k : Nat) (r r' : Rebuild term value posting),
    x.rebuilds[j]? = some r -> x.rebuilds[k]? = some r' ->
      r.holds = true -> r'.holds = true -> j = k
  older : forall (j : Nat) (r : Rebuild term value posting) generation,
    x.rebuilds[j]? = some r -> r.generation = some generation ->
      generation ≤ x.barrier.generation
  current : forall (j : Nat) (r : Rebuild term value posting),
    x.rebuilds[j]? = some r -> r.generation = some x.barrier.generation ->
      x.session.NoDirty -> r.Covers cfg x.session.store

/-- The condition on a step. -/
def KeepsApart (x : Shared term value posting) :
    SharedStep term value -> Prop
  | .writer l => x.session.KeepsApart l
  | _ => True

theorem writerStep_cases
    (h : x.writerStep cfg l = some x') :
    exists session barrier, x' = { x with session := session, barrier := barrier } ∧
      Session.Moves cfg x.session l session ∧
      barrier.publisher = x.barrier.publisher ∧
      (match l with
      | .enter _ _ => x.free = true ∧
          barrier.activeMutations = x.barrier.activeMutations + 1 ∧
          barrier.generation = x.barrier.generation
      | .leave i => exists changed,
          x.session.writers[i]? = some (.applied changed) ∧
          barrier.activeMutations = x.barrier.activeMutations - 1 ∧
          barrier.generation = if changed then x.barrier.generation + 1
            else x.barrier.generation
      | _ => barrier.activeMutations = x.barrier.activeMutations ∧
          barrier.generation = x.barrier.generation) := by
  cases l with
  | enter i m =>
    rw [writerStep] at h
    by_cases hfree : x.free = true
    · rw [if_pos hfree] at h
      rcases Option.map_eq_some_iff.mp h with ⟨session, hstep, heq⟩
      exact ⟨session, _, heq.symm, Session.moves_of_step hstep, rfl, hfree,
        rfl, rfl⟩
    · rw [if_neg hfree] at h
      cases h
  | leave i =>
    simp only [writerStep] at h
    split at h
    case h_1 changed hwriter =>
      rcases Option.map_eq_some_iff.mp h with ⟨session, hstep, heq⟩
      exact ⟨session, _, heq.symm, Session.moves_of_step hstep, rfl, changed,
        hwriter, rfl, rfl⟩
    case h_2 => cases h
  | _ =>
    rcases Option.map_eq_some_iff.mp h with ⟨session, hstep, heq⟩
    exact ⟨session, x.barrier, heq.symm, Session.moves_of_step hstep, rfl,
      rfl, rfl⟩

/-- A step of a writer: the count and the generation of the barrier keep up
with the writers. -/
theorem Good.writer (h : x.Good cfg)
    (hapart : x.session.KeepsApart l) (hstep : x.writerStep cfg l = some x') :
    x'.Good cfg := by
  rcases writerStep_cases hstep with
    ⟨session, barrier, heq, hmoves, hpublisher, hbarrier⟩
  have hcount := Session.countP_of_moves hmoves
  have hactive := h.active
  have hgeneration : x.barrier.generation ≤ barrier.generation := by
    cases l with
    | enter i m => exact Nat.le_of_eq hbarrier.2.2.symm
    | leave i =>
      rcases hbarrier with ⟨changed, _, _, hgen⟩
      rw [hgen]
      split
      · exact Nat.le_succ _
      · exact Nat.le_refl _
    | _ => exact Nat.le_of_eq hbarrier.2.symm
  rw [heq]
  constructor
  · exact h.session.step hapart hmoves
  · show barrier.activeMutations = session.writers.countP Phase.busy
    cases l with
    | enter i m =>
      rw [hbarrier.2.1, hactive]
      exact hcount.symm
    | leave i =>
      rcases hbarrier with ⟨changed, _, hsub, _⟩
      rw [hsub, hactive, ← hcount]
      rfl
    | _ => exact (hbarrier.1.trans hactive).trans hcount.symm
  · intro htrue
    change barrier.publisher = true at htrue
    show barrier.activeMutations = 0
    rw [hpublisher] at htrue
    have hzero := h.alone htrue
    cases l with
    | enter i m =>
      have hfree := hbarrier.1
      rw [free, htrue] at hfree
      cases hfree
    | leave i =>
      rcases hbarrier with ⟨changed, _, hsub, _⟩
      rw [hsub, hzero]
    | _ => exact hbarrier.1.trans hzero
  · intro j r hj hr
    exact hpublisher.trans (h.holder j r hj hr)
  · exact h.unique
  · intro j r generation hj hr
    exact Nat.le_trans (h.older j r generation hj hr) hgeneration
  · intro j r hj hr hclean
    have hle := h.older j r barrier.generation hj hr
    have hsame : barrier.generation = x.barrier.generation :=
      Nat.le_antisymm hle hgeneration
    rcases Session.noDirty_of_moves hmoves hclean with
      ⟨i, hl, hwriter⟩ | ⟨hbefore, hfind⟩
    · subst hl
      rcases hbarrier with ⟨changed, hwriter', _, hgen⟩
      rw [hwriter] at hwriter'
      cases hwriter'
      rw [if_pos rfl] at hgen
      omega
    · exact Rebuild.Covers.congr (h.current j r hj (hr.trans
        (congrArg some hsame)) hbefore) hfind

/-!
# Steps of a rebuild
-/

/-- A step that changes one rebuild and not its hold of the barrier. -/
theorem Good.rebuild (h : x.Good cfg) {j : Nat}
    {before after : Rebuild term value posting}
    (hbefore : x.rebuilds[j]? = some before)
    (hholds : after.holds = before.holds)
    (hgeneration : forall generation, after.generation = some generation ->
      generation ≤ x.barrier.generation)
    (hcovers : after.generation = some x.barrier.generation ->
      x.session.NoDirty -> after.Covers cfg x.session.store) :
    (x.setRebuild j after).Good cfg := by
  have hholder : forall (k : Nat) (r : Rebuild term value posting),
      (x.rebuilds.set j after)[k]? = some r -> r.holds = true ->
        exists r', x.rebuilds[k]? = some r' ∧ r'.holds = true := by
    intro k r hk hr
    rcases getElem?_set_cases hk with ⟨heq, hra⟩ | ⟨_, hold⟩
    · rw [heq]
      rw [hra, hholds] at hr
      exact ⟨before, hbefore, hr⟩
    · exact ⟨r, hold, hr⟩
  constructor
  · exact h.session
  · exact h.active
  · exact h.alone
  · intro k r hk hr
    rcases hholder k r hk hr with ⟨r', hr', hholds'⟩
    exact h.holder k r' hr' hholds'
  · intro k l r r' hk hl hr hr'
    rcases hholder k r hk hr with ⟨a, ha, haholds⟩
    rcases hholder l r' hl hr' with ⟨b, hb, hbholds⟩
    exact h.unique k l a b ha hb haholds hbholds
  · intro k r generation hk hr
    rcases getElem?_set_cases hk with ⟨_, hra⟩ | ⟨_, hold⟩
    · rw [hra] at hr
      exact hgeneration generation hr
    · exact h.older k r generation hold hr
  · intro k r hk hr hclean
    rcases getElem?_set_cases hk with ⟨_, hra⟩ | ⟨_, hold⟩
    · rw [hra] at hr ⊢
      exact hcovers hr hclean
    · exact h.current k r hold hr hclean

theorem Good.idle (h : x.Good cfg) (hactive : x.barrier.activeMutations = 0)
    {i : Nat} {phase : Phase term value}
    (hi : x.session.writers[i]? = some phase) : phase = .idle := by
  rw [h.active, List.countP_eq_zero] at hactive
  have hbusy := hactive phase (List.mem_of_getElem? hi)
  cases phase with
  | idle => rfl
  | _ => exact absurd rfl hbusy

theorem Good.noDirty (h : x.Good cfg)
    (hactive : x.barrier.activeMutations = 0) : x.session.NoDirty := by
  intro i phase hi
  rw [h.idle hactive hi]
  rfl

variable {index : NativeIndex term value posting}

section

variable (h : x.Good cfg)

include h

theorem Good.replaceIndex (hactive : x.barrier.activeMutations = 0)
    (hindex : index.Follows cfg x.session.store) :
    ({ x.session with index := index } :
      Session term value posting).Settled cfg := by
  have hnone : forall {α : Type} {f : Phase term value -> Option α} {i a},
      f .idle = none -> x.session.ofWriter f i ≠ some a := by
    intro α f i a hf hi
    rcases Option.bind_eq_some_iff.mp hi with ⟨phase, hget, hphase⟩
    rw [h.idle hactive hget, hf] at hphase
    cases hphase
  constructor
  · exact h.session.labelled
  · exact h.session.distinct
  · exact h.session.apart
  · exact h.session.fresh
  · intro i p hi
    exact absurd hi (hnone rfl)
  · exact fun label _ => hindex label

/-- A step that takes the barrier: no mutation is in it, and no other rebuild
has it. -/
theorem Good.acquire {j old generation : Nat}
    (hj : x.rebuilds[j]? = some (.waiting old generation index))
    (hpublisher : x.barrier.publisher = false)
    (hactive : x.barrier.activeMutations = 0) :
    ({ x.setRebuild j (.exclusive old generation index) with
      barrier := { x.barrier with
        publisher := true
        waitingPublishers := x.barrier.waitingPublishers - 1 } } :
          Shared term value posting).Good cfg := by
  have hnot : forall (k : Nat) (r : Rebuild term value posting),
      x.rebuilds[k]? = some r -> r.holds ≠ true := by
    intro k r hk hr
    rw [h.holder k r hk hr] at hpublisher
    cases hpublisher
  constructor
  · exact h.session
  · exact h.active
  · exact fun _ => hactive
  · exact fun _ _ _ _ => rfl
  · intro k l r r' hk hl hr hr'
    rcases getElem?_set_cases hk with ⟨hkj, _⟩ | ⟨_, hold⟩
    · rcases getElem?_set_cases hl with ⟨hlj, _⟩ | ⟨_, hold⟩
      · exact hkj.trans hlj.symm
      · exact absurd hr' (hnot l r' hold)
    · exact absurd hr (hnot k r hold)
  · intro k r g hk hr
    rcases getElem?_set_cases hk with ⟨_, hra⟩ | ⟨_, hold⟩
    · rw [hra] at hr
      exact h.older j (.waiting old generation index) g hj hr
    · exact h.older k r g hold hr
  · intro k r hk hr hclean
    rcases getElem?_set_cases hk with ⟨_, hra⟩ | ⟨_, hold⟩
    · rw [hra] at hr ⊢
      exact h.current j (.waiting old generation index) hj hr hclean
    · exact h.current k r hold hr hclean

theorem Good.release {j : Nat} (hj : x.rebuilds[j]? = some .finished) :
    ({ x.setRebuild j .idle with
      barrier := { x.barrier with publisher := false } } :
        Shared term value posting).Good cfg := by
  have hnot : forall (k : Nat) (r : Rebuild term value posting),
      (x.rebuilds.set j .idle)[k]? = some r -> r.holds ≠ true := by
    intro k r hk hr
    rcases getElem?_set_cases hk with ⟨_, hra⟩ | ⟨hne, hold⟩
    · rw [hra] at hr
      cases hr
    · exact hne (h.unique k j r _ hold hj hr rfl)
  constructor
  · exact h.session
  · exact h.active
  · nofun
  · exact fun k r hk hr => absurd hr (hnot k r hk)
  · exact fun k l r r' hk _ hr _ => absurd hr (hnot k r hk)
  · intro k r g hk hr
    rcases getElem?_set_cases hk with ⟨_, hra⟩ | ⟨_, hold⟩
    · rw [hra] at hr
      cases hr
    · exact h.older k r g hold hr
  · intro k r hk hr hclean
    rcases getElem?_set_cases hk with ⟨_, hra⟩ | ⟨_, hold⟩
    · rw [hra] at hr
      cases hr
    · exact h.current k r hold hr hclean

theorem Good.waitingPublishers (count : Nat) :
    ({ x with barrier := { x.barrier with waitingPublishers := count } } :
      Shared term value posting).Good cfg where
  session := h.session
  active := h.active
  alone := h.alone
  holder := h.holder
  unique := h.unique
  older := h.older
  current := h.current

theorem Good.publish {j old generation : Nat}
    (hj : x.rebuilds[j]? = some (.exclusive old generation index))
    (hgeneration : x.barrier.generation = generation) :
    ({ x.setRebuild j .finished with
      session := { x.session with index := index }
      indexId := x.indexId + 1 } : Shared term value posting).Good cfg := by
  have hactive := h.alone (h.holder j _ hj rfl)
  have hindex : index.Follows cfg x.session.store := by
    apply h.current j _ hj _ (h.noDirty hactive)
    rw [hgeneration]
    rfl
  have hfinished : (x.setRebuild j .finished).Good cfg := by
    refine h.rebuild hj rfl ?_ ?_
    · nofun
    · nofun
  exact
    { session := h.replaceIndex hactive hindex
      active := h.active
      alone := h.alone
      holder := hfinished.holder
      unique := hfinished.unique
      older := hfinished.older
      current := hfinished.current }

theorem Good.step {l : SharedStep term value}
    (hapart : x.KeepsApart l) (hstep : x.step cfg l = some x') :
    x'.Good cfg := by
  cases l with
  | writer l => exact h.writer hapart hstep
  | start j =>
    simp only [Shared.step] at hstep
    split at hstep
    case h_1 hj =>
      cases hstep
      refine h.rebuild hj rfl ?_ ?_
      · nofun
      · nofun
    case h_2 => cases hstep
  | snapshotGeneration j =>
    simp only [Shared.step] at hstep
    split at hstep
    case h_1 old hj =>
      split at hstep
      · cases hstep
        refine h.rebuild hj rfl ?_ ?_
        · intro g hg
          cases hg
          exact Nat.le_refl _
        · exact fun _ _ => trivial
      · cases hstep
    case h_2 => cases hstep
  | scan j =>
    simp only [Shared.step] at hstep
    split at hstep
    case h_1 old generation hj =>
      cases hstep
      refine h.rebuild hj rfl ?_ ?_
      · exact fun g hg => h.older j _ g hj hg
      · intro _ _ timestamp clock
        exact build_follows cfg h.session.labelled timestamp clock
    case h_2 => cases hstep
  | build j timestamp clock =>
    simp only [Shared.step] at hstep
    split at hstep
    case h_1 old generation rows hj =>
      split at hstep
      · cases hstep
        refine h.rebuild hj rfl ?_ ?_
        · exact fun g hg => h.older j _ g hj hg
        · exact fun hg hclean => h.current j _ hj hg hclean timestamp clock
      · cases hstep
        refine h.rebuild hj rfl ?_ ?_
        · nofun
        · nofun
    case h_2 => cases hstep
  | await j =>
    simp only [Shared.step] at hstep
    split at hstep
    case h_1 old generation index hj =>
      cases hstep
      have hwaiting : (x.setRebuild j
          (.waiting old generation index)).Good cfg := by
        refine h.rebuild hj rfl ?_ ?_
        · exact fun g hg => h.older j _ g hj hg
        · exact fun hg hclean =>
            h.current j (.built old generation index) hj hg hclean
      exact hwaiting.waitingPublishers _
    case h_2 => cases hstep
  | acquire j =>
    simp only [Shared.step] at hstep
    split at hstep
    case h_1 old generation index hj =>
      split at hstep
      case isTrue hfree =>
        cases hstep
        rw [Bool.and_eq_true, Bool.not_eq_true', beq_iff_eq] at hfree
        exact h.acquire hj hfree.1 hfree.2
      case isFalse => cases hstep
    case h_2 => cases hstep
  | publish j =>
    simp only [Shared.step] at hstep
    split at hstep
    case h_1 old generation index hj =>
      split at hstep
      case isTrue hcurrent =>
        cases hstep
        exact h.publish hj hcurrent.1
      case isFalse =>
        cases hstep
        refine h.rebuild hj rfl ?_ ?_
        · nofun
        · nofun
    case h_2 => cases hstep
  | release j =>
    simp only [Shared.step] at hstep
    split at hstep
    case h_1 hj =>
      cases hstep
      exact h.release hj
    case h_2 => cases hstep

end

/-!
# Runs
-/

theorem good_start (cfg : IndexConfig value posting) {s : Store term value}
    (hs : s.Labelled) (timestamp clock writers rebuilds : Nat) :
    (start cfg s timestamp clock writers rebuilds).Good cfg := by
  have hwriter : forall (i : Nat) (phase : Phase term value),
      (start cfg s timestamp clock writers rebuilds).session.writers[i]? =
        some phase -> phase = .idle := by
    intro i phase hi
    exact List.eq_of_mem_replicate (List.mem_of_getElem? hi)
  have hrebuild : forall (j : Nat) (r : Rebuild term value posting),
      (start cfg s timestamp clock writers rebuilds).rebuilds[j]? = some r ->
        r = .idle := by
    intro j r hj
    exact List.eq_of_mem_replicate (List.mem_of_getElem? hj)
  have hnone : forall {α : Type} {f : Phase term value -> Option α} {i a},
      f .idle = none ->
        (start cfg s timestamp clock writers rebuilds).session.ofWriter f i ≠
          some a := by
    intro α f i a hf hi
    rcases Option.bind_eq_some_iff.mp hi with ⟨phase, hget, hphase⟩
    rw [hwriter i phase hget, hf] at hphase
    cases hphase
  constructor
  · constructor
    · exact hs
    · intro i rows ttl hi
      cases hwriter i _ hi
    · exact fun i j p q _ hi => absurd hi (hnone rfl)
    · exact fun i p hi => absurd hi (hnone rfl)
    · exact fun i p hi => absurd hi (hnone rfl)
    · exact fun label _ => build_follows cfg hs timestamp clock label
  · show 0 = (List.replicate writers _).countP Phase.busy
    rw [List.countP_replicate]
    rfl
  · exact fun _ => rfl
  · intro j r hj hr
    rw [hrebuild j r hj] at hr
    cases hr
  · intro j k r r' hj _ hr
    rw [hrebuild j r hj] at hr
    cases hr
  · intro j r generation hj hr
    rw [hrebuild j r hj] at hr
    cases hr
  · intro j r hj hr
    rw [hrebuild j r hj] at hr
    cases hr

/-- When no mutation is in progress, the published index follows the store,
in every run of writers that keep apart and of rebuilds. -/
theorem writers_converge (cfg : IndexConfig value posting)
    {s : Store term value} (hs : s.Labelled)
    (timestamp clock writers rebuilds : Nat)
    (steps : List (SharedStep term value)) {x : Shared term value posting}
    (hapart : Interleaving.Meets (step cfg) KeepsApart
      (start cfg s timestamp clock writers rebuilds) steps)
    (hrun : run (step cfg)
      (start cfg s timestamp clock writers rebuilds) steps = some x)
    (hactive : x.barrier.activeMutations = 0) :
    x.session.index.Follows cfg x.session.store := by
  have hgood : x.Good cfg := run_inv (step cfg)
    (fun hx hok hstep => Good.step hx hok hstep)
    (good_start cfg hs timestamp clock writers rebuilds) hapart hrun
  apply hgood.session.follows
  intro i p hi
  rcases Option.bind_eq_some_iff.mp hi with ⟨phase, hget, hphase⟩
  rw [hgood.idle hactive hget] at hphase
  cases hphase

def tagRow (label : Label) (tag : Str) : CandidateData Unit Nat :=
  ⟨label, [0], [], [], tag, 0⟩

omit [DecidableEq posting] in
theorem keepsApart_read_iff (x : Session term value posting) (i : Nat) :
    x.KeepsApart (.read i) <-> forall j, j < x.writers.length -> j ≠ i ->
      forall p, p ∈ (x.reading i).toList ->
        forall q, q ∈ (x.ofWriter Phase.inFlight j).toList ->
          p.labels.all fun label => label ∉ q.labels := by
  simp only [Option.mem_toList, List.all_eq_true, decide_eq_true_iff]
  constructor
  · intro h j _ hj p hp q hq label hlabel hmem
    exact h p hp j q hj hq hlabel hmem
  · intro h p hp j q hj hq label hlabel hmem
    rcases Option.bind_eq_some_iff.mp hq with ⟨phase, hphase, _⟩
    rcases List.getElem?_eq_some_iff.mp hphase with ⟨hlt, _⟩
    exact h j hlt hj p hp q hq label hlabel hmem

/-- Whether a concrete run keeps its writers apart can be computed. -/
instance (x : Shared term value posting) (l : SharedStep term value) :
    Decidable (x.KeepsApart l) :=
  match l with
  | .writer (.enter _ (.write rows _)) =>
    inferInstanceAs (Decidable (rows.map CandidateData.label).Nodup)
  | .writer (.read i) =>
    decidable_of_iff _ (keepsApart_read_iff x.session i).symm
  | .writer (.enter _ (.delete _)) | .writer (.enter _ .expire)
  | .writer (.scan _ _) | .writer (.stamp _ _) | .writer (.commit _ _)
  | .writer (.apply _ _) | .writer (.leave _) | .start _ | .snapshotGeneration _
  | .scan _ | .build _ _ _ | .await _ | .acquire _ | .publish _
  | .release _ => isTrue trivial

/-- Two writers of different keys overlap.  A rebuild begins while they are under
way and is given up; a second one is published. -/
def apartSteps : List (SharedStep Unit Nat) :=
  [.writer (.enter 0 (.write [tagRow 1 ['x']] 0)),
    .writer (.enter 1 (.write [tagRow 2 ['y']] 0)), .writer (.read 0), .start 0,
    .writer (.read 1), .writer (.stamp 0 1), .writer (.stamp 1 2),
    .writer (.commit 1 3), .snapshotGeneration 0, .scan 0,
    .writer (.commit 0 4), .writer (.apply 0 5), .writer (.leave 0),
    .build 0 6 6, .writer (.apply 1 7), .writer (.leave 1), .start 0,
    .snapshotGeneration 0, .scan 0, .build 0 8 8, .await 0, .acquire 0,
    .publish 0, .release 0]

theorem writers_converge_apart :
    Store.Labelled (Store.empty : Store Unit Nat) ∧
      exists x, run (step tagConfig.index)
          (start tagConfig.index Store.empty 0 0 2 1) apartSteps = some x ∧
        x.indexId = 1 ∧ x.session.store.getAllCandsData.length = 2 ∧
        x.session.index.Follows tagConfig.index x.session.store := by
  have hs : Store.Labelled (Store.empty : Store Unit Nat) := nofun
  refine ⟨hs, _, rfl, rfl, by decide +kernel, ?_⟩
  exact writers_converge tagConfig.index hs 0 0 2 1 apartSteps
    (by decide +kernel) rfl rfl

/-- Two writers of one key that overlap. -/
def overlappingSteps : List (SharedStep Unit Nat) :=
  [.enter 0 (.write [tagRow 1 ['x']] 0), .enter 1 (.write [tagRow 1 ['y']] 0),
    .read 0, .read 1, .stamp 0 1, .stamp 1 2, .commit 0 3, .commit 1 4,
    .apply 0 5, .apply 1 6, .leave 0, .leave 1].map .writer

/-- Both writers have read that nothing is stored, so neither takes the tag of
the other away. -/
theorem overlapping_writers_diverge :
    exists x, run (step tagConfig.index)
        (start tagConfig.index Store.empty 0 0 2 0) overlappingSteps =
          some x ∧
      x.barrier.activeMutations = 0 ∧
      ¬x.session.index.Follows tagConfig.index x.session.store := by
  refine ⟨_, rfl, rfl, ?_⟩
  intro h
  have hpostings := (h 1).2
  revert hpostings
  decide +kernel

end Shared
end Collection
end OpenViking
