import OpenViking.Common.Interleaving
import OpenViking.Semantic.AbstractOverview

/-!
# Freshness debt

Recorders raise the counter of a directory, and every refresh subtracts from it what
it read at its own start.
-/

namespace OpenViking
namespace Semantic
namespace Debt

open Interleaving

/-!
# What a call does to the counters
-/

variable {freshness : Freshness}

theorem pendingOf_withPending {pending : Nat} {document : Document}
    (h : document.metadata.freshness = some freshness) :
    pendingOf (some (document.withPending pending)) = pending := by
  cases document with
  | legacy body => cases h
  | okf metadata body =>
    have hmeta : metadata.freshness = some freshness := h
    simp [pendingOf, freshnessOf, Document.withPending, Document.metadata, hmeta]

variable {directory : Directory}

theorem baselines_eq_some {inOverview inAbstract : Freshness}
    (h : directory.baselines = some (inOverview, inAbstract)) :
    freshnessOf directory.overview = some inOverview ∧
      freshnessOf directory.abstract = some inAbstract := by
  unfold Directory.baselines at h
  cases hover : freshnessOf directory.overview with
  | none =>
    rw [hover] at h
    cases h
  | some overview =>
    cases habs : freshnessOf directory.abstract with
    | none =>
      rw [hover, habs] at h
      cases h
    | some abstract =>
      rw [hover, habs] at h
      cases h
      exact ⟨rfl, rfl⟩

variable {sidecar : Option Document}

theorem freshnessOf_eq_some (h : freshnessOf sidecar = some freshness) :
    exists document, sidecar = some document ∧
      document.metadata.freshness = some freshness := by
  cases sidecar with
  | none => cases h
  | some document => exact ⟨document, rfl, h⟩

theorem pendingOf_of_freshnessOf (h : freshnessOf sidecar = some freshness) :
    pendingOf sidecar = freshness.pendingChildChanges := by
  unfold pendingOf
  rw [h]

theorem decideParentRefresh_pendingAfter {total before : Nat} {request : PlanRequest}
    (h : 0 < request.changedEntries) :
    (decideParentRefresh true true total before request).pendingAfter =
      before + request.changedEntries := by
  unfold decideParentRefresh
  rw [if_neg (by simp; omega)]

theorem planUnderLease_of_no_baselines (request : PlanRequest)
    (lands : Lands) (h : directory.baselines = none) :
    planUnderLease request lands directory =
      (directory, some (planWithoutBaseline request)) := by
  unfold planUnderLease
  rw [h]
  cases directory.overview with
  | none => rfl
  | some overview =>
    cases directory.abstract with
    | none => rfl
    | some abstract => rfl

/-- Under its lease a call with both baselines raises both counters to the larger of
them and the changes, or raises after at most the overview's. -/
theorem planUnderLease_cases {request : PlanRequest}
    (lands : Lands) (hpos : 0 < request.changedEntries)
    (h : directory.baselines ≠ none) :
    (pendingOf (planUnderLease request lands directory).1.overview =
        directory.readPendingSnapshot + request.changedEntries.toNat ∧
      pendingOf (planUnderLease request lands directory).1.abstract =
        directory.readPendingSnapshot + request.changedEntries.toNat) ∨
      ((planUnderLease request lands directory).2 = none ∧
        (planUnderLease request lands directory).1.abstract = directory.abstract ∧
        pendingOf directory.overview ≤
          pendingOf (planUnderLease request lands directory).1.overview) := by
  cases hbase : directory.baselines with
  | none => exact absurd hbase h
  | some both =>
    rcases both with ⟨inOverview, inAbstract⟩
    rcases baselines_eq_some hbase with ⟨hover, habs⟩
    rcases freshnessOf_eq_some hover with ⟨overview, hoverDoc, hoverFresh⟩
    rcases freshnessOf_eq_some habs with ⟨abstract, habsDoc, habsFresh⟩
    have hsnapshot : directory.readPendingSnapshot =
        max inOverview.pendingChildChanges inAbstract.pendingChildChanges := by
      unfold Directory.readPendingSnapshot
      rw [pendingOf_of_freshnessOf hover, pendingOf_of_freshnessOf habs]
    unfold planUnderLease
    rw [hbase, hoverDoc, habsDoc]
    dsimp only
    rw [decideParentRefresh_pendingAfter hpos, ← hsnapshot]
    have hnat : ((directory.readPendingSnapshot : Int) +
        request.changedEntries).toNat =
        directory.readPendingSnapshot + request.changedEntries.toNat := by
      omega
    rw [hnat]
    rcases writeSidecars_cases lands
        (overview.withPending
          (directory.readPendingSnapshot + request.changedEntries.toNat))
        (abstract.withPending
          (directory.readPendingSnapshot + request.changedEntries.toNat))
        directory with hboth | ⟨written, hwritten, hraised⟩
    · rw [hboth]
      exact .inl
        ⟨pendingOf_withPending hoverFresh, pendingOf_withPending habsFresh⟩
    · rw [hraised]
      refine .inr ⟨rfl, habsDoc, ?_⟩
      rcases hwritten with hsame | hnew
      · rw [← hoverDoc, hsame]
      · rw [← hoverDoc, hnew, pendingOf_withPending hoverFresh]
        unfold Directory.readPendingSnapshot
        omega

/-- A call adds what it records to the counter of the abstract and to the counter
that is read, and lowers neither. -/
theorem plan_counts (request : PlanRequest) (preliminary : Directory) (lands : Lands)
    (directory : Directory) :
    pendingOf directory.abstract + recordedBy request preliminary lands directory ≤
        pendingOf
          (planAbstractOverviewRefresh request preliminary lands directory).1.abstract ∧
      directory.readPendingSnapshot +
          recordedBy request preliminary lands directory ≤
        (planAbstractOverviewRefresh request preliminary lands
          directory).1.readPendingSnapshot := by
  unfold planAbstractOverviewRefresh recordedBy
  by_cases hnoop : request.changedEntries ≤ 0 ∨ request.l0BodyChanged = false
  · rw [if_pos hnoop, if_pos hnoop]
    exact ⟨le_refl _, le_refl _⟩
  rw [if_neg hnoop, if_neg hnoop]
  by_cases hpre : preliminary.baselines = none
  · rw [if_pos hpre, if_pos (Or.inl hpre)]
    exact ⟨le_refl _, le_refl _⟩
  rw [if_neg hpre]
  by_cases hbase : directory.baselines = none
  · rw [if_pos (Or.inr hbase), planUnderLease_of_no_baselines request lands hbase]
    exact ⟨le_refl _, le_refl _⟩
  rw [if_neg (not_or.mpr ⟨hpre, hbase⟩)]
  have hpos : 0 < request.changedEntries := by
    by_contra hneg
    exact hnoop (Or.inl (not_lt.mp hneg))
  rcases planUnderLease_cases lands hpos hbase with
    ⟨hover, habs⟩ | ⟨hnone, habs, hover⟩
  · unfold Directory.readPendingSnapshot at *
    split
    · omega
    · omega
  · rw [if_pos hnone]
    unfold Directory.readPendingSnapshot
    rw [habs]
    omega

theorem remainingPending_some (snapshot current : Nat) :
    remainingPending (some (snapshot : Int)) current = current - snapshot := by
  unfold remainingPending
  dsimp only
  omega

/-- A write either completes and leaves in both sidecars what its refresh has not
consumed, or leaves the abstract as it was. -/
theorem write_cases (request : WriteRequest) {snapshot : Nat}
    (lands : Lands) (directory : Directory)
    (hfresh : request.metadata.freshness = some freshness)
    (hconsume : request.consumePending = some (snapshot : Int)) :
    ((writeAbstractOverview request lands directory).2.completes = true ∧
      request.staleBefore = false ∧ request.staleUnderLease = false ∧
      pendingOf (writeAbstractOverview request lands directory).1.abstract =
        directory.readPendingSnapshot - snapshot) ∨
      ((writeAbstractOverview request lands directory).2.completes = false ∧
        (writeAbstractOverview request lands directory).1.abstract =
          directory.abstract) := by
  unfold writeAbstractOverview
  by_cases hstale : request.staleBefore = true ∨ request.staleUnderLease = true
  · rw [if_pos hstale]
    exact .inr ⟨rfl, rfl⟩
  rw [if_neg hstale]
  dsimp only
  rw [not_or, Bool.not_eq_true, Bool.not_eq_true] at hstale
  have hpending : forall body,
      pendingOf (some (Document.okf (request.mergedMetadata directory) body)) =
        directory.readPendingSnapshot - snapshot := by
    intro body
    simp [pendingOf, freshnessOf, Document.metadata, WriteRequest.mergedMetadata,
      hfresh, hconsume, remainingPending_some]
  rcases writeSidecars_cases lands
      (Document.okf (request.mergedMetadata directory) request.overview)
      (Document.okf (request.mergedMetadata directory) request.abstract)
      directory with hboth | ⟨written, _, hraised⟩
  · rw [hboth]
    exact .inl ⟨rfl, hstale.1, hstale.2, hpending _⟩
  · rw [hraised]
    exact .inr ⟨rfl, rfl⟩

/-!
# Overlapping refreshes
-/

/-- A refresh of the directory: the counter it read at its start, how many changes
had been recorded by then, and how often a refresh had lowered the counter. -/
structure Refresh where
  snapshot : Nat
  recordedBefore : Nat
  loweredBefore : Nat
  finished : Bool
deriving DecidableEq

/-- What a refresh has generated when it comes to write. -/
structure Generated where
  overview : String
  abstract : String
  source : Option Source
  generatedBy : GeneratedBy
  totalEntries : Nat
  sampledEntries : Nat
  staleBefore : Bool
  staleUnderLease : Bool
deriving DecidableEq

/-- The directory and its refreshes, all changes recorded so far, how often a
refresh lowered the counter, and what had been recorded at the snapshot of each
refresh whose write completed, the latest first. -/
structure World where
  directory : Directory
  refreshes : List Refresh
  recorded : Nat
  lowered : Nat
  completed : List Nat
deriving DecidableEq

def World.start (directory : Directory) : World :=
  { directory := directory
    refreshes := []
    recorded := 0
    lowered := 0
    completed := [] }

inductive Label where
  | plan (request : PlanRequest) (preliminary : Directory) (lands : Lands)
  | readSnapshot
  | write (refresh : Nat) (generated : Generated) (lands : Lands)

/-- `_write_directory_semantics`. -/
def Refresh.request (refresh : Refresh) (generated : Generated)
    (freshness : Freshness) : WriteRequest :=
  { overview := generated.overview
    abstract := generated.abstract
    metadata :=
      { source := generated.source
        generatedBy := some generated.generatedBy
        freshness := some freshness }
    consumePending := some (refresh.snapshot : Int)
    staleBefore := generated.staleBefore
    staleUnderLease := generated.staleUnderLease }

def World.ended (world : World) (index : Nat) (refresh : Refresh)
    (outcome : Directory × WriteResult) : World :=
  { world with
    directory := outcome.1
    refreshes := world.refreshes.set index { refresh with finished := true }
    lowered :=
      if outcome.1.readPendingSnapshot < world.directory.readPendingSnapshot then
        world.lowered + 1
      else world.lowered
    completed :=
      if outcome.2.completes then refresh.recordedBefore :: world.completed
      else world.completed }

def step (world : World) : Label -> Option World
  | .plan request preliminary lands =>
    some
      { world with
        directory :=
          (planAbstractOverviewRefresh request preliminary lands
            world.directory).1
        recorded :=
          world.recorded + recordedBy request preliminary lands world.directory }
  | .readSnapshot =>
    some
      { world with
        refreshes := world.refreshes ++
          [{ snapshot := world.directory.readPendingSnapshot
             recordedBefore := world.recorded
             loweredBefore := world.lowered
             finished := false }] }
  | .write index generated lands =>
    match world.refreshes[index]? with
    | none => none
    | some refresh =>
      if refresh.finished then none
      else
        match freshnessMetadata generated.totalEntries
            generated.sampledEntries 0 with
        | none =>
          some
            (world.ended index refresh (world.directory, .raised))
        | some freshness =>
          some
            (world.ended index refresh
              (writeAbstractOverview (refresh.request generated freshness) lands
                world.directory))

/-- Since its snapshot no refresh has lowered the counter that this one writes. -/
def Undisturbed (world : World) : Label -> Prop
  | .write index generated _ =>
    generated.staleBefore = false -> generated.staleUnderLease = false ->
    forall refresh, world.refreshes[index]? = some refresh ->
      refresh.loweredBefore = world.lowered
  | _ => True

instance (world : World) : forall label, Decidable (Undisturbed world label)
  | .write index generated _ =>
    inferInstanceAs (Decidable
      (generated.staleBefore = false -> generated.staleUnderLease = false ->
        forall refresh, refresh ∈ world.refreshes[index]? ->
          refresh.loweredBefore = world.lowered))
  | .plan _ _ _ => isTrue trivial
  | .readSnapshot => isTrue trivial

/-- What was recorded after the snapshot of the refresh that completed last is still
counted, and so everything recorded is counted or older than the snapshot of a
completed refresh. -/
structure World.DebtKept (world : World) : Prop where
  sinceLatest :
    world.recorded - world.completed.headD 0 ≤ world.directory.readPendingSnapshot
  seen : exists before, (before = 0 ∨ before ∈ world.completed) ∧
    world.recorded ≤ before + world.directory.readPendingSnapshot

/-!
# The accounting
-/

/-- The abstract counts what is owed, and the counter that a refresh will write
over holds its snapshot and all that came after it. -/
structure Accounted (world : World) : Prop where
  owed : world.recorded ≤
    world.completed.headD 0 + pendingOf world.directory.abstract
  bounded : forall refresh, refresh ∈ world.refreshes ->
    refresh.loweredBefore ≤ world.lowered
  apart : forall refresh, refresh ∈ world.refreshes ->
    refresh.loweredBefore = world.lowered ->
      refresh.snapshot + world.recorded ≤
        refresh.recordedBefore + world.directory.readPendingSnapshot

theorem Accounted.start (directory : Directory) :
    Accounted (World.start directory) where
  owed := Nat.zero_le _
  bounded := nofun
  apart := nofun

variable {world : World}

theorem Accounted.debtKept (h : Accounted world) : world.DebtKept := by
  have howed := h.owed
  have habs : pendingOf world.directory.abstract ≤
      world.directory.readPendingSnapshot := le_max_right _ _
  constructor
  · omega
  · refine ⟨world.completed.headD 0, ?_, by omega⟩
    cases world.completed with
    | nil => exact .inl rfl
    | cons before rest => exact .inr List.mem_cons_self

theorem Accounted.plan (h : Accounted world) (request : PlanRequest)
    (preliminary : Directory) (lands : Lands) :
    Accounted
      { world with
        directory :=
          (planAbstractOverviewRefresh request preliminary lands world.directory).1
        recorded :=
          world.recorded + recordedBy request preliminary lands world.directory } := by
  have hcounts := plan_counts request preliminary lands world.directory
  have howed := h.owed
  constructor
  · dsimp only
    omega
  · exact h.bounded
  · intro refresh hmem heq
    have hapart := h.apart refresh hmem heq
    dsimp only
    omega

theorem Accounted.readSnapshot (h : Accounted world) :
    Accounted
      { world with
        refreshes := world.refreshes ++
          [{ snapshot := world.directory.readPendingSnapshot
             recordedBefore := world.recorded
             loweredBefore := world.lowered
             finished := false }] } := by
  constructor
  · exact h.owed
  · intro refresh hmem
    rcases List.mem_append.mp hmem with hold | hnew
    · exact h.bounded refresh hold
    · rw [List.mem_singleton.mp hnew]
  · intro refresh hmem heq
    rcases List.mem_append.mp hmem with hold | hnew
    · exact h.apart refresh hold heq
    · rw [List.mem_singleton.mp hnew]
      dsimp only
      omega

/-- A write that ends keeps the account when it lowers the counter of the abstract
only to complete. -/
theorem Accounted.ended (h : Accounted world) {index : Nat}
    {refresh : Refresh} (hget : world.refreshes[index]? = some refresh)
    {outcome : Directory × WriteResult}
    (howed : world.recorded ≤
      (if outcome.2.completes then refresh.recordedBefore :: world.completed
        else world.completed).headD 0 + pendingOf outcome.1.abstract) :
    Accounted (world.ended index refresh outcome) := by
  have hmem : forall other,
      other ∈ (world.ended index refresh outcome).refreshes ->
        exists before, before ∈ world.refreshes ∧
          before.loweredBefore = other.loweredBefore ∧
          before.snapshot = other.snapshot ∧
          before.recordedBefore = other.recordedBefore := by
    intro other hother
    rcases List.mem_or_eq_of_mem_set hother with hold | hnew
    · exact ⟨other, hold, rfl, rfl, rfl⟩
    · rw [hnew]
      exact ⟨refresh, List.mem_of_getElem? hget, rfl, rfl, rfl⟩
  constructor
  · exact howed
  · intro other hother
    rcases hmem other hother with ⟨before, hin, hlow, _, _⟩
    have hbound := h.bounded before hin
    unfold World.ended
    dsimp only
    split
    · omega
    · omega
  · intro other hother heq
    rcases hmem other hother with ⟨before, hin, hlow, hsnap, hrec⟩
    have hbound := h.bounded before hin
    have hapart := h.apart before hin
    unfold World.ended at heq ⊢
    dsimp only at heq ⊢
    split at heq
    · omega
    · have := hapart (by omega)
      omega

theorem Accounted.write {world world' : World} (h : Accounted world) {index : Nat}
    {generated : Generated} {lands : Lands}
    (hok : Undisturbed world (.write index generated lands))
    (hstep : step world (.write index generated lands) = some world') :
    Accounted world' := by
  simp only [step] at hstep
  split at hstep
  case h_1 => cases hstep
  case h_2 refresh hget =>
    split at hstep
    case isTrue => cases hstep
    case isFalse hfin =>
      cases hfresh : freshnessMetadata generated.totalEntries
          generated.sampledEntries 0 with
      | none =>
        rw [hfresh] at hstep
        cases hstep
        exact h.ended hget h.owed
      | some freshness =>
        rw [hfresh] at hstep
        cases hstep
        apply h.ended hget
        have howed := h.owed
        rcases write_cases (refresh.request generated freshness)
            lands world.directory rfl rfl with
          ⟨hdone, hbefore, hunder, habs⟩ | ⟨hnot, habs⟩
        · have hapart := h.apart refresh (List.mem_of_getElem? hget)
            (hok hbefore hunder refresh hget)
          rw [hdone, if_pos rfl, List.headD_cons, habs]
          omega
        · rw [hnot, if_neg Bool.false_ne_true, habs]
          exact howed

theorem Accounted.step {world world' : World} {label : Label} (h : Accounted world)
    (hok : Undisturbed world label) (hstep : step world label = some world') :
    Accounted world' := by
  cases label with
  | plan request preliminary lands =>
    cases hstep
    exact h.plan request preliminary lands
  | readSnapshot =>
    cases hstep
    exact h.readSnapshot
  | write index generated lands => exact h.write hok hstep

/-- As long as no refresh writes over a counter that another has lowered since its
snapshot, no recorded change is forgotten. -/
theorem changes_stay_counted {directory : Directory} {labels : List Label}
    {world : World}
    (hok : Interleaving.Meets step Undisturbed (World.start directory) labels)
    (hrun : run step (World.start directory) labels = some world) :
    world.DebtKept :=
  (run_inv step Accounted.step (Accounted.start directory) hok
    hrun).debtKept

/-!
# Two refreshes that subtract the same changes
-/

def freshSidecar (body : String) (pending : Nat) : Document :=
  .okf
    { source := none
      generatedBy := none
      freshness := freshnessMetadata 40 32 pending }
    body

def freshDirectory : Directory :=
  { overview := some (freshSidecar "overview" 0)
    abstract := some (freshSidecar "abstract" 0) }

def fiveChanges : PlanRequest :=
  { changedEntries := 5
    l0BodyChanged := true
    forceRefresh := true
    overviewSampleLimit := 32
    refreshRatio := 1 }

def newText : Generated :=
  { overview := "new overview"
    abstract := "new abstract"
    source := none
    generatedBy := { component := "SemanticProcessor", trigger := "parent" }
    totalEntries := 40
    sampledEntries := 32
    staleBefore := false
    staleUnderLease := false }

def bothLand : Lands :=
  { overview := true, abstract := true }

/-- Five changes, two refreshes that start, three more changes, and the writes of
both. -/
def overlappingRefreshes : List Label :=
  [.plan fiveChanges freshDirectory bothLand, .readSnapshot,
    .readSnapshot,
    .plan { fiveChanges with changedEntries := 3 } freshDirectory bothLand,
    .write 0 newText bothLand, .write 1 newText bothLand]

/-- One refresh after the other. -/
def separateRefreshes : List Label :=
  [.plan fiveChanges freshDirectory bothLand, .readSnapshot,
    .plan { fiveChanges with changedEntries := 3 } freshDirectory bothLand,
    .write 0 newText bothLand, .readSnapshot,
    .write 1 newText bothLand]

theorem overlapping_refreshes_forget :
    ¬ forall (directory : Directory) (labels : List Label) (world : World),
        run step (World.start directory) labels = some world ->
          world.DebtKept := by
  intro h
  have hrun : exists world,
      run step (World.start freshDirectory) overlappingRefreshes =
        some world ∧
      world.directory.readPendingSnapshot = 0 ∧ world.recorded = 8 ∧
      world.completed = [5, 5] := by
    refine ⟨_, rfl, ?_, ?_, ?_⟩
    · decide +kernel
    · decide +kernel
    · decide +kernel
  rcases hrun with ⟨world, hrun, hpending, hrecorded, hcompleted⟩
  rcases (h _ _ world hrun).seen with ⟨before, hbefore, hle⟩
  rw [hpending, hrecorded] at hle
  rw [hcompleted] at hbefore
  rcases hbefore with hzero | hmem
  · omega
  · have hfive : before = 5 := by
      simpa using hmem
    omega

theorem changes_stay_counted_separate :
    exists world,
      run step (World.start freshDirectory) separateRefreshes =
        some world ∧ world.DebtKept := by
  refine ⟨_, rfl, ?_⟩
  have hok : Interleaving.Meets step Undisturbed (World.start freshDirectory)
      separateRefreshes := by
    decide +kernel
  exact changes_stay_counted hok rfl

end Debt
end Semantic
end OpenViking
