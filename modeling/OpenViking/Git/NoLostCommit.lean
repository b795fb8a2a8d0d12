import OpenViking.Git.BranchCalls

/-!
# No commit is lost

A step of a call either leaves the ref alone or puts a child of the current
head on top of the chain.  In every interleaving the chain is therefore the
list of all swaps, newest first, on top of the chain the branch started with.
-/

namespace OpenViking
namespace Git

open Paths Interleaving List

/-!
# Chains
-/

namespace CommitId

def parent : CommitId -> Option CommitId
  | root _ _ => none
  | child _ _ parent => some parent

def depth : CommitId -> Nat
  | root _ _ => 0
  | child _ _ parent => parent.depth + 1

theorem parent_ne_self (c : CommitId) : c.parent ≠ some c := by
  intro h
  have hdepth : forall p, c.parent = some p -> p.depth < c.depth := by
    intro p hp
    cases c with
    | root tree info => cases hp
    | child tree info parent =>
      cases hp
      exact Nat.lt_succ_self _
  exact absurd (hdepth c h) (Nat.lt_irrefl _)

end CommitId

@[simp] theorem writeCommit_parent (tree : Tree) (parent : Option CommitId)
    (info : CommitInfo) : (writeCommit tree parent info).parent = parent := by
  cases parent with
  | none => rfl
  | some head => rfl

section Chains

variable {objects : List CommitId}

variable {c : CommitId}

theorem firstParents_of_mem (h : c ∈ objects) : firstParents objects c =
      (chainFrom objects c.parent).map (c :: ·) := by
  cases c with
  | root tree info =>
    rw [firstParents, if_pos h]
    rfl
  | child tree info parent =>
    rw [firstParents, if_pos h]
    rfl

variable {l : List CommitId}

theorem firstParents_mono {objects' : List CommitId}
    (h : forall c, c ∈ objects -> c ∈ objects') (c : CommitId) (hc : firstParents objects c = some l) :
    firstParents objects' c = some l := by
  induction c generalizing l with
  | root tree info =>
    rw [firstParents] at hc
    split at hc
    · rename_i hmem
      rw [firstParents, if_pos (h _ hmem)]
      exact hc
    · cases hc
  | child tree info parent ih =>
    rw [firstParents] at hc
    split at hc
    · rename_i hmem
      rcases Option.map_eq_some_iff.mp hc with ⟨rest, hrest, hl⟩
      rw [firstParents, if_pos (h _ hmem), ih hrest, ← hl]
      rfl
    · cases hc

theorem chainFrom_mono {objects' : List CommitId}
    (h : forall c, c ∈ objects -> c ∈ objects') {head : Option CommitId} (hc : chainFrom objects head = some l) :
    chainFrom objects' head = some l := by
  cases head with
  | none => exact hc
  | some c => exact firstParents_mono h c hc

theorem depth_le_of_mem_firstParents
    (hc : firstParents objects c = some l) {d : CommitId} (hd : d ∈ l) :
    d.depth ≤ c.depth := by
  induction c generalizing l with
  | root tree info =>
    rw [firstParents] at hc
    split at hc
    · cases hc
      rw [mem_singleton.mp hd]
    · cases hc
  | child tree info parent ih =>
    rw [firstParents] at hc
    split at hc
    · rcases Option.map_eq_some_iff.mp hc with ⟨rest, hrest, hl⟩
      rw [← hl] at hd
      rcases mem_cons.mp hd with heq | hmem
      · rw [heq]
      · exact Nat.le_succ_of_le (ih hrest hmem)
    · cases hc

theorem firstParents_nodup (hc : firstParents objects c = some l) : l.Nodup := by
  induction c generalizing l with
  | root tree info =>
    rw [firstParents] at hc
    split at hc
    · cases hc
      exact nodup_singleton _
    · cases hc
  | child tree info parent ih =>
    rw [firstParents] at hc
    split at hc
    · rcases Option.map_eq_some_iff.mp hc with ⟨rest, hrest, hl⟩
      rw [← hl]
      refine nodup_cons.mpr ⟨?_, ih hrest⟩
      intro hmem
      exact absurd (depth_le_of_mem_firstParents hrest hmem)
        (Nat.not_succ_le_self _)
    · cases hc

theorem chainFrom_nodup {head : Option CommitId}
    (hc : chainFrom objects head = some l) : l.Nodup := by
  cases head with
  | none =>
    cases hc
    exact nodup_nil
  | some c => exact firstParents_nodup hc

end Chains

/-!
# One step of a call
-/

/-- A step that leaves the ref alone. -/
structure QuietStep (store : BranchStore) (stage : CallStage)
    (store' : BranchStore) (stage' : CallStage) : Prop where
  ref : store'.ref = store.ref
  objects : forall c, c ∈ store.objects -> c ∈ store'.objects
  newCommit : stage'.newCommit = stage.newCommit
  written : forall expected oid pending,
    stage' = .objectWritten expected oid pending ->
      oid.parent = expected ∧ oid ∈ store'.objects

section Step

variable {store store' : BranchStore} {stage stage' : CallStage}

private theorem QuietStep.keep
    (hnew : stage'.newCommit = stage.newCommit)
    (hstage : forall expected oid pending,
      stage' ≠ .objectWritten expected oid pending) :
    QuietStep store stage store stage' where
  ref := rfl
  objects := fun _ h => h
  newCommit := hnew
  written := fun _ _ _ h => absurd h (hstage _ _ _)

private theorem QuietStep.of_pair {next : BranchStore × CallStage}
    (h : QuietStep store stage next.1 next.2)
    (heq : some next = some (store', stage')) :
    QuietStep store stage store' stage' := by
  cases heq
  exact h

private theorem QuietStep.ended {result : CallResult}
    (hstage : stage.newCommit = none) (hresult : result.newCommit = none) :
    QuietStep store stage store (.done result) :=
  QuietStep.keep (hresult.trans hstage.symm) (by simp)

private theorem QuietStep.writeObject {tree : Tree}
    {prevHead : Option CommitId} {info : CommitInfo} {pending : Pending}
    (hstage : stage.newCommit = none) :
    QuietStep store stage
      { store with objects :=
          writeCommit tree prevHead info :: store.objects }
      (.objectWritten prevHead (writeCommit tree prevHead info) pending) where
  ref := rfl
  objects := fun _ h => mem_cons_of_mem _ h
  newCommit := hstage.symm
  written := by
    intro expected oid pending h
    cases h
    exact ⟨writeCommit_parent _ _ _, mem_cons_self⟩

theorem writePlan_quiet (name email message : String)
    (prevHead : Option CommitId) (plan : CommitPlan) (time : Int)
    (hstage : stage.newCommit = none) :
    QuietStep store stage
      (writePlan name email message store prevHead plan time).1
      (writePlan name email message store prevHead plan time).2 := by
  unfold writePlan
  split
  · exact QuietStep.ended hstage rfl
  · exact QuietStep.writeObject hstage

theorem writeRestore_quiet (shortHex : CommitId -> String)
    (req : RestoreRequest) (projectDir : Option Path)
    (source head : CommitId) (time : Int) (hstage : stage.newCommit = none) :
    QuietStep store stage
      (writeRestore shortHex req store projectDir source head time).1
      (writeRestore shortHex req store projectDir source head time).2 := by
  unfold writeRestore
  cases hsub : restoreSubtrees projectDir source head with
  | error e =>
    refine QuietStep.ended hstage ?_
    unfold restoreSubtrees at hsub
    split at hsub
    · cases hsub
    · split at hsub
      · split at hsub <;> cases hsub
      · cases hsub
        rfl
  | ok trees =>
    rcases trees with ⟨sourceTree, headTree⟩
    simp only
    split
    · exact QuietStep.ended hstage rfl
    · split
      · exact QuietStep.ended hstage rfl
      · cases restoredTree projectDir source head sourceTree with
        | error e => exact QuietStep.ended hstage rfl
        | ok newTree => exact QuietStep.writeObject hstage

theorem restoreReport_newCommit (oid source head : CommitId)
    (diff : RestoreDiff) (writes deletes : List FileTask) :
    (restoreReport oid source head diff writes deletes).newCommit =
      some oid := by
  unfold restoreReport
  split <;> rfl

theorem newCommit_of_mayFail (h : stage.mayFail = true) :
    stage.newCommit = none := by
  cases stage with
  | swapped oid pending => cases h
  | done result => cases h
  | _ => rfl

theorem readHead_error {e : CallError}
    (h : readHead store = .error e) :
    (CallResult.failed e).newCommit = none := by
  unfold readHead loadCommit at h
  split at h
  · cases h
  · split at h
    · cases h
    · cases h
      rfl

theorem readBoth_error {source : CommitId} {e : CallError}
    (h : readBoth store source = .error e) :
    (CallResult.failed e).newCommit = none := by
  unfold readBoth loadCommit at h
  split at h
  · cases h
    rfl
  split at h
  · simp only [bind, Except.bind] at h
    split at h
    · cases h
    · cases h
      rfl
  · cases h
    rfl

variable {request : BranchRequest}

theorem branchCallStep_cases {shortHex : CommitId -> String} {input : StepInput}
    (h : branchCallStep shortHex store request stage input =
      some (store', stage')) :
    QuietStep store stage store' stage' ∨
      exists oid pending,
        stage = CallStage.objectWritten store.ref oid pending ∧
        store' = { store with ref := some oid } ∧
        stage' = CallStage.swapped oid pending := by
  unfold branchCallStep at h
  split at h
  · split at h
    · cases h
      exact .inl (QuietStep.ended rfl rfl)
    · split at h
      · rename_i e herr
        cases h
        exact .inl (QuietStep.ended rfl (readHead_error herr))
      · cases h
        exact .inl (QuietStep.keep rfl (by simp))
  · split at h
    · cases h
      exact .inl (QuietStep.ended rfl rfl)
    · exact .inl ((writePlan_quiet _ _ _ _ _ _ rfl).of_pair h)
  · split at h
    · cases h
      exact .inl (QuietStep.ended rfl rfl)
    · cases h
      exact .inl (QuietStep.keep rfl (by simp))
  · split at h
    · rename_i e herr
      cases h
      exact .inl (QuietStep.ended rfl (readBoth_error herr))
    · cases h
      exact .inl (QuietStep.keep rfl (by simp))
  · exact .inl ((writeRestore_quiet _ _ _ _ _ _ rfl).of_pair h)
  · rename_i expected oid pending
    have hswap := Option.some.inj h
    unfold swapRef at hswap
    split at hswap
    · rename_i href
      cases hswap
      exact .inr ⟨oid, pending, by rw [href], rfl, rfl⟩
    · cases hswap
      exact .inl (QuietStep.ended rfl rfl)
  · cases h
    exact .inl (QuietStep.keep rfl (by simp))
  · rename_i oid source head diff writes deletes
    cases h
    exact .inl (QuietStep.keep
      (restoreReport_newCommit oid source head diff writes deletes)
      (by simp))
  · split at h
    · rename_i hmay
      cases h
      exact .inl (QuietStep.ended (newCommit_of_mayFail hmay) rfl)
    · cases h
  · cases h

end Step

/-!
# The invariant of all runs
-/

/--
The chain is the list of all swaps on top of the initial chain, and the swaps
of a call are those that its stage tells.
-/
structure ChainInv (old : List CommitId)
    (changes : List (Nat × Option CommitId)) (s : BranchState) : Prop where
  chain : exists oids : List CommitId,
    changes.map Prod.snd = oids.map some ∧
      s.store.chain = some (oids.reverse ++ old)
  written : forall {i : Nat} {request : BranchRequest}
      {expected : Option CommitId} {oid : CommitId} {pending : Pending},
    s.calls[i]? =
      some (request, .objectWritten expected oid pending) ->
        oid.parent = expected ∧ oid ∈ s.store.objects
  swaps : forall {i : Nat} {request : BranchRequest} {stage : CallStage},
    s.calls[i]? = some (request, stage) ->
      changes.filter (fun change => change.1 = i) =
        stage.newCommit.toList.map fun oid => (i, some oid)

section System

variable {shortHex : CommitId -> String} {s s' : BranchState}
  {label : Nat × StepInput} {old : List CommitId}

theorem branchStep_cases (h : branchStep shortHex s label = some s') :
    exists request stage store stage',
      s.calls[label.1]? = some (request, stage) ∧
        branchCallStep shortHex s.store request stage label.2 =
          some (store, stage') ∧
        s' = ⟨store, s.calls.set label.1 (request, stage')⟩ := by
  unfold branchStep at h
  split at h
  · cases h
  · rename_i request stage hcall
    split at h
    · cases h
    · rename_i store stage' hrun
      cases h
      exact ⟨request, stage, store, stage', hcall, hrun, rfl⟩

theorem start_chainInv {store : BranchStore}
    (requests : List BranchRequest) (h : store.chain = some old) :
    ChainInv old [] (BranchState.start store requests) := by
  have hstart : forall {i : Nat} {request : BranchRequest}
      {stage : CallStage},
      (BranchState.start store requests).calls[i]? = some (request, stage) ->
        stage = .start := by
    intro i request stage hcall
    rcases mem_map.mp (mem_of_getElem? hcall) with ⟨r, _, heq⟩
    cases heq
    rfl
  constructor
  · exact ⟨[], rfl, h⟩
  · intro i request expected oid pending hcall
    cases hstart hcall
  · intro i request stage hcall
    rw [hstart hcall]
    rfl

theorem refChange_of_step (h : branchStep shortHex s label = some s') :
    refChange shortHex s label =
      if s'.store.ref = s.store.ref then none
      else some (label.1, s'.store.ref) := by
  unfold refChange
  rw [h]

variable {changes : List (Nat × Option CommitId)}

theorem ChainInv.quiet
    (h : ChainInv old changes s) {i : Nat}
    {stage stage' : CallStage} {store : BranchStore}
    (hcall : s.calls[i]? = some (request, stage))
    (hquiet : QuietStep s.store stage store stage') :
    ChainInv old changes ⟨store, s.calls.set i (request, stage')⟩ := by
  constructor
  · rcases h.chain with ⟨oids, hoids, hchain⟩
    refine ⟨oids, hoids, ?_⟩
    unfold BranchStore.chain
    rw [hquiet.ref]
    exact chainFrom_mono hquiet.objects hchain
  · intro j request' expected oid pending hj
    rcases getElem?_set_cases hj with ⟨_, heq⟩ | ⟨_, hold⟩
    · cases heq
      exact hquiet.written expected oid pending rfl
    · have hwritten := h.written hold
      exact ⟨hwritten.1, hquiet.objects oid hwritten.2⟩
  · intro j request' stage'' hj
    rcases getElem?_set_cases hj with ⟨hji, heq⟩ | ⟨_, hold⟩
    · cases heq
      rw [hji, hquiet.newCommit]
      exact h.swaps hcall
    · exact h.swaps hold

theorem ChainInv.swap
    (h : ChainInv old changes s) {i : Nat}
    {oid : CommitId} {pending : Pending}
    (hcall : s.calls[i]? =
      some (request, .objectWritten s.store.ref oid pending)) :
    ChainInv old (changes ++ [(i, some oid)])
      ⟨{ s.store with ref := some oid },
        s.calls.set i (request, .swapped oid pending)⟩ := by
  have hwritten := h.written hcall
  constructor
  · rcases h.chain with ⟨oids, hoids, hchain⟩
    refine ⟨oids ++ [oid], by simp [hoids], ?_⟩
    show firstParents s.store.objects oid = _
    rw [firstParents_of_mem hwritten.2, hwritten.1]
    show s.store.chain.map (oid :: ·) = _
    rw [hchain]
    simp
  · intro j request' expected oid' pending' hj
    rcases getElem?_set_cases hj with ⟨_, heq⟩ | ⟨_, hold⟩
    · cases heq
    · exact h.written hold
  · intro j request' stage' hj
    rw [filter_append]
    rcases getElem?_set_cases hj with ⟨hji, heq⟩ | ⟨hji, hold⟩
    · cases heq
      rw [hji, h.swaps hcall]
      simp [CallStage.newCommit]
    · rw [h.swaps hold]
      simp [Ne.symm hji]

theorem ChainInv.step
    (h : ChainInv old changes s)
    (hstep : branchStep shortHex s label = some s') :
    ChainInv old (changes ++ (refChange shortHex s label).toList) s' := by
  rw [refChange_of_step hstep]
  rcases branchStep_cases hstep with
    ⟨request, stage, store, stage', hcall, hrun, rfl⟩
  rcases branchCallStep_cases hrun with hquiet | ⟨oid, pending, rfl, rfl, rfl⟩
  · rw [if_pos hquiet.ref]
    simpa using h.quiet hcall hquiet
  · have hne : some oid ≠ s.store.ref := by
      rw [← (h.written hcall).1]
      exact Ne.symm oid.parent_ne_self
    rw [if_neg hne]
    exact h.swap hcall

end System

/-!
# Whole runs
-/

/--
What holds after a run: `changes` are the ref changes of the run, `old` is the
chain of the branch before it.
-/
structure NoLostCommit (old : List CommitId)
    (changes : List (Nat × Option CommitId)) (s : BranchState)
    (chain : List CommitId) : Prop where
  stored : s.store.chain = some chain
  order : chain.map some = (changes.map Prod.snd).reverse ++ old.map some
  once : chain.Nodup
  returned : forall {i : Nat} {request : BranchRequest}
      {result : CallResult} {oid : CommitId},
    s.calls[i]? = some (request, .done result) ->
      result.newCommit = some oid ->
        chain.count oid = 1 ∧
          changes.filter (fun change => change.1 = i) = [(i, some oid)]
  untouched : forall {i : Nat} {request : BranchRequest}
      {result : CallResult},
    s.calls[i]? = some (request, .done result) ->
      result.newCommit = none ->
        forall ref, (i, ref) ∉ changes

theorem noLostCommit_of_inv {old : List CommitId} {s : BranchState}
    (h : ChainInv old changes s) :
    exists chain, NoLostCommit old changes s chain := by
  rcases h.chain with ⟨oids, hoids, hchain⟩
  have hnodup : (oids.reverse ++ old).Nodup := chainFrom_nodup hchain
  refine ⟨oids.reverse ++ old, hchain, ?_, hnodup, ?_, ?_⟩
  · rw [hoids, map_append, map_reverse]
  · intro i request result oid hcall hnew
    have hswaps := h.swaps hcall
    rw [show (CallStage.done result).newCommit = some oid from hnew] at hswaps
    have hmem : (i, some oid) ∈ changes := by
      have hfilter : (i, some oid) ∈
          changes.filter (fun change => change.1 = i) := by
        rw [hswaps]
        exact mem_singleton_self _
      exact (mem_filter.mp hfilter).1
    have hoid : oid ∈ oids := by
      have hsnd := mem_map_of_mem (f := Prod.snd) hmem
      rw [hoids] at hsnd
      rcases mem_map.mp hsnd with ⟨oid', hoid', heq⟩
      cases heq
      exact hoid'
    refine ⟨count_eq_one_of_mem hnodup ?_, hswaps⟩
    exact mem_append_left _ (mem_reverse.mpr hoid)
  · intro i request result hcall hnew ref hmem
    have hswaps := h.swaps hcall
    rw [show (CallStage.done result).newCommit = none from hnew] at hswaps
    have hfilter : (i, ref) ∈ changes.filter (fun change => change.1 = i) :=
      mem_filter.mpr ⟨hmem, by simp⟩
    rw [hswaps] at hfilter
    cases hfilter

/-- No interleaving of calls on a branch loses a commit. -/
theorem no_lost_commit {shortHex : CommitId -> String} {store : BranchStore}
    {requests : List BranchRequest} {labels : List (Nat × StepInput)}
    {s : BranchState} {old : List CommitId} (hold : store.chain = some old)
    (hrun : Interleaving.run (branchStep shortHex)
      (BranchState.start store requests) labels = some s) :
    exists chain, NoLostCommit old
      (refChanges shortHex (BranchState.start store requests) labels) s
        chain := by
  have hinv := Interleaving.trace_inv (branchStep shortHex)
    (refChange shortHex) ChainInv.step
    (start_chainInv requests hold) hrun
  exact noLostCommit_of_inv hinv

private def samplePlan : CommitPlan where
  editor := TreeEditor.fromTree .nil
  changed := 1
  ignored := 0
  entries := ∅

private def sampleRequest : BranchRequest :=
  BranchRequest.commit none "author" "email" "message"

/-- Two root commits race, and a third call commits on top of the winner. -/
private def racingLabels : List (Nat × StepInput) :=
  [(0, .next), (1, .next),
    (1, .work (.ok samplePlan) 1),
    (0, .work (.ok samplePlan) 2),
    (1, .next), (0, .next), (2, .next),
    (2, .work (.ok samplePlan) 3),
    (2, .next), (2, .next), (1, .next)]

theorem no_lost_commit_racing :
    exists s, Interleaving.run (branchStep fun _ => "")
        (BranchState.start ⟨none, []⟩
          [sampleRequest, sampleRequest, sampleRequest])
        racingLabels = some s ∧
      exists chain, NoLostCommit []
        (refChanges (fun _ => "") (BranchState.start ⟨none, []⟩
          [sampleRequest, sampleRequest, sampleRequest]) racingLabels) s
          chain :=
  ⟨_, rfl, no_lost_commit rfl rfl⟩

end Git
end OpenViking
