import OpenViking.Refs.RefCall

/-!
# Refs are atomic registers

When all ref names in use are apart, every call acts on its own ref as one
atomic compare-and-set, in every interleaving.
-/

namespace OpenViking
namespace Refs

open Paths Interleaving Interleaving List

/-- The ref names in use do not share files. -/
def AllApart (root : Path) (names : List Str) : Prop :=
  forall r s, r ∈ names -> s ∈ names -> r ≠ s -> Apart root r s

/-- The call holds the lock of its ref. -/
def Stage.Critical : Stage -> Prop
  | start => False
  | done _ => False
  | _ => True

/-- The system between two steps. -/
structure StoreInv (root : Path) (names : List Str) (s : StoreState) :
    Prop where
  inUse : forall {i : Nat} {call : UpdateCall} {stage : Stage},
    s.calls[i]? = some (call, stage) ->
    call.refName ∈ names
  refs : forall r, r ∈ names -> RefOk root s.files r
  stages : forall {i : Nat} {call : UpdateCall} {stage : Stage},
    s.calls[i]? = some (call, stage) ->
    StageOk root s.files call stage
  locked : forall {i : Nat} {call : UpdateCall} {stage : Stage},
    s.calls[i]? = some (call, stage) ->
    stage.Critical -> call.refName ∈ s.locks
  exclusive : forall {i j : Nat} {call call' : UpdateCall}
      {stage stage' : Stage},
    s.calls[i]? = some (call, stage) -> s.calls[j]? = some (call', stage') ->
      stage.Critical -> stage'.Critical -> call.refName = call'.refName ->
        i = j

/-- The read of a ref, as `RefStore::read` and the calls see it. -/
def readRef (root : Path) (files : Files) (r : Str) :
    Except RefStoreError (Option ObjectId) :=
  readRefOpt files (refPath root r) (endsInDot r)

theorem readRef_eq {root : Path} {files : Files} {r : Str}
    (h : RefOk root files r) (hdot : endsInDot r = false) :
    readRef root files r = .ok (valueOf root files r) :=
  readRefOpt_eq h hdot

/-- Every ref but that of call `i` keeps its value in a step of the call. -/
structure StepOk (root : Path) (names : List Str) (s : StoreState) (i : Nat)
    (s' : StoreState) : Prop where
  values : forall r, r ∈ names -> endsInDot r = false ->
    readRef root s'.files r = readRef root s.files r ∨
      exists call stage, s'.calls[i]? = some (call, stage) ∧
        call.refName = r ∧
        readRef root s.files r = .ok call.expected ∧
        readRef root s'.files r = .ok (some call.new) ∧
        Committed root call stage
  calls : forall j, j ≠ i -> s'.calls[j]? = s.calls[j]?

section System

variable {root : Path} {names : List Str} {s s' : StoreState} {i : Nat}

theorem start_inv {files : Files} {calls : List UpdateCall}
    (hcalls : forall call, call ∈ calls -> call.refName ∈ names)
    (hfiles : forall r, r ∈ names -> RefOk root files r) :
    StoreInv root names (StoreState.start files calls) := by
  have hstart : forall {i : Nat} {call : UpdateCall} {stage : Stage},
      (StoreState.start files calls).calls[i]? = some (call, stage) ->
        call ∈ calls ∧ stage = .start := by
    intro i call stage h
    have hmem := mem_of_getElem? h
    rcases mem_map.mp hmem with ⟨c, hc, heq⟩
    cases heq
    exact ⟨hc, rfl⟩
  constructor
  · intro i call stage h
    exact hcalls call (hstart h).1
  · exact hfiles
  · intro i call stage h
    rw [(hstart h).2]
    trivial
  · intro i call stage h hcrit
    rw [(hstart h).2] at hcrit
    cases hcrit
  · intro i j call stage call' stage' h _ hcrit
    rw [(hstart h).2] at hcrit
    cases hcrit

/-- The three kinds of steps. -/
theorem storeStep_cases (h : storeStep root s i = some s') :
    exists call stage, s.calls[i]? = some (call, stage) ∧
      ((exists e, stage = .start ∧
          validateRefName call.refName = .error e ∧
          s' = { s with
            calls := s.calls.set i (call, .done (.error e)) }) ∨
        (stage = .start ∧ call.refName ∉ s.locks ∧
          s' = { s with
            locks := call.refName :: s.locks
            calls := s.calls.set i (call, .locked) }) ∨
        (stage.Critical ∧ s' = {
          files := (callStep root s.files call stage).1
          locks := if (callStep root s.files call stage).2.isDone
            then s.locks.erase call.refName else s.locks
          calls := s.calls.set i
            (call, (callStep root s.files call stage).2) })) := by
  unfold storeStep at h
  cases hcall : s.calls[i]? with
  | none =>
    rw [hcall] at h
    cases h
  | some entry =>
    rcases entry with ⟨call, stage⟩
    rw [hcall] at h
    refine ⟨call, stage, rfl, ?_⟩
    cases stage with
    | start =>
      simp only at h
      split at h
      · rename_i e herr
        cases h
        exact .inl ⟨e, rfl, herr, rfl⟩
      · split at h
        · cases h
        · rename_i hfree
          cases h
          exact .inr (.inl ⟨rfl, hfree, rfl⟩)
    | done result => cases h
    | _ =>
      cases h
      exact .inr (.inr ⟨trivial, rfl⟩)

theorem Stage.critical_iff (stage : Stage) (h : stage ≠ .start) :
    stage.isDone = false <-> stage.Critical := by
  cases stage with
  | start => exact absurd rfl h
  | done result => simp [Stage.isDone, Stage.Critical]
  | _ => simp [Stage.isDone, Stage.Critical]

theorem callStep_ne_start (root : Path) (files : Files) (call : UpdateCall)
    {stage : Stage} (h : stage.Critical) :
    (callStep root files call stage).2 ≠ .start := by
  cases stage with
  | start => cases h
  | done result => cases h
  | _ =>
    simp only [callStep]
    split <;> simp

/-- Every step keeps the invariant and is a register step of its own ref. -/
theorem storeStep_ok (hapart : AllApart root names)
    (hvalid : forall r, r ∈ names -> validateRefName r = Except.ok ())
    (h : StoreInv root names s) (hstep : storeStep root s i = some s') :
    StoreInv root names s' ∧ StepOk root names s i s' := by
  rcases storeStep_cases hstep with ⟨call, stage, hcall, hcases⟩
  have hname := h.inUse hcall
  rcases hcases with ⟨e, _, herr, _⟩ | ⟨hstart, hfree, rfl⟩ | ⟨hcrit, rfl⟩
  · rw [hvalid _ hname] at herr
    cases herr
  · refine ⟨?_, fun r _ _ => .inl rfl, fun j hj =>
      getElem?_set_ne (Ne.symm hj)⟩
    constructor
    · intro j call' stage' hj
      rcases getElem?_set_cases hj with ⟨_, heq⟩ | ⟨_, hold⟩
      · cases heq
        exact hname
      · exact h.inUse hold
    · exact h.refs
    · intro j call' stage' hj
      rcases getElem?_set_cases hj with ⟨_, heq⟩ | ⟨_, hold⟩
      · cases heq
        trivial
      · exact h.stages hold
    · intro j call' stage' hj hc
      rcases getElem?_set_cases hj with ⟨_, heq⟩ | ⟨_, hold⟩
      · cases heq
        exact mem_cons_self
      · exact mem_cons_of_mem _ (h.locked hold hc)
    · intro j k c st c' st' hj hk hc hc' heq
      rcases getElem?_set_cases hj with ⟨hji, hje⟩ | ⟨_, hjold⟩
      · rcases getElem?_set_cases hk with ⟨hki, _⟩ | ⟨_, hkold⟩
        · rw [hji, hki]
        · cases hje
          have hmem := h.locked hkold hc'
          rw [← heq] at hmem
          exact absurd hmem hfree
      · rcases getElem?_set_cases hk with ⟨_, hke⟩ | ⟨_, hkold⟩
        · cases hke
          have hmem := h.locked hjold hc
          rw [heq] at hmem
          exact absurd hmem hfree
        · exact h.exclusive hjold hkold hc hc' heq
  · have hown := callStep_ok stage (h.refs _ hname) (h.stages hcall)
    rcases hown with ⟨hframe, hrefOk, hstageOk, hvalue⟩
    have hrefs : forall r, r ∈ names ->
        RefOk root (callStep root s.files call stage).1 r := by
      intro r hr
      by_cases hrc : r = call.refName
      · rw [hrc]
        exact hrefOk
      · exact hframe.refOk (hapart _ _ hr hname hrc)
          (hapart _ _ hname hr (Ne.symm hrc)) (h.refs r hr)
    have hnew := callStep_ne_start root s.files call hcrit
    -- Another call in its critical section works on another ref.
    have hother : forall {j : Nat} {call' : UpdateCall} {stage' : Stage},
        j ≠ i -> s.calls[j]? = some (call', stage') -> stage'.Critical ->
          call'.refName ≠ call.refName :=
      fun hji hj hc heq => hji (h.exclusive hj hcall hc hcrit heq)
    refine ⟨⟨?_, hrefs, ?_, ?_, ?_⟩, ?_, fun j hj =>
      getElem?_set_ne (Ne.symm hj)⟩
    · intro j call' stage' hj
      rcases getElem?_set_cases hj with ⟨_, heq⟩ | ⟨_, hold⟩
      · cases heq
        exact hname
      · exact h.inUse hold
    · intro j call' stage' hj
      rcases getElem?_set_cases hj with ⟨_, heq⟩ | ⟨hji, hold⟩
      · cases heq
        exact hstageOk
      have hstage' := h.stages hold
      by_cases hc : stage'.Critical
      · have hne := hother hji hold hc
        have hname' := h.inUse hold
        exact hstage'.frame hframe (hapart _ _ hname' hname hne)
          (hapart _ _ hname hname' (Ne.symm hne))
      · cases stage' with
        | start => trivial
        | done result => exact hstage'
        | _ => exact absurd trivial hc
    · intro j call' stage' hj hc
      rcases getElem?_set_cases hj with ⟨_, heq⟩ | ⟨hji, hold⟩
      · cases heq
        rw [if_neg (by simpa using (Stage.critical_iff _ hnew).mpr hc)]
        exact h.locked hcall hcrit
      · have hmem := h.locked hold hc
        simp only
        split
        · exact (mem_erase_of_ne (hother hji hold hc)).mpr hmem
        · exact hmem
    · intro j k c st c' st' hj hk hc hc' heq
      rcases getElem?_set_cases hj with ⟨hji, hje⟩ | ⟨hji, hjold⟩
      · rcases getElem?_set_cases hk with ⟨hki, _⟩ | ⟨hki, hkold⟩
        · rw [hji, hki]
        · cases hje
          exact absurd heq.symm (hother hki hkold hc')
      · rcases getElem?_set_cases hk with ⟨_, hke⟩ | ⟨_, hkold⟩
        · cases hke
          exact absurd heq (hother hji hjold hc)
        · exact h.exclusive hjold hkold hc hc' heq
    · intro r hr hdot
      rw [readRef_eq (hrefs r hr) hdot, readRef_eq (h.refs r hr) hdot]
      by_cases hrc : r = call.refName
      · subst hrc
        rcases hvalue hdot with hsame | ⟨hexp, hnewv, hcommit⟩
        · exact .inl (congrArg Except.ok hsame)
        · exact .inr ⟨call, _, getElem?_set_of_some hcall, rfl,
            congrArg Except.ok hexp, congrArg Except.ok hnewv, hcommit⟩
      · exact .inl (congrArg Except.ok
          (hframe.valueOf_eq (hapart _ _ hr hname hrc) hdot))

theorem Committed.step (h : StoreInv root names s)
    (hstep : storeStep root s i = some s') {call : UpdateCall}
    {stage : Stage} (hcall : s.calls[i]? = some (call, stage))
    (hdot : endsInDot call.refName = false)
    (hcommit : Committed root call stage) :
    exists stage', s'.calls[i]? = some (call, stage') ∧
      Committed root call stage' := by
  rcases storeStep_cases hstep with ⟨call', stage₀, hcall', hcases⟩
  rw [hcall] at hcall'
  cases hcall'
  rcases hcommit with rfl | ⟨rfl, htmp⟩
  · rcases hcases with ⟨_, h, _⟩ | ⟨h, _⟩ | ⟨h, _⟩ <;> cases h
  rcases hcases with ⟨_, h, _⟩ | ⟨h, _⟩ | ⟨_, rfl⟩
  · cases h
  · cases h
  · rcases tmpWritten_step (h.refs _ (h.inUse hcall)) (h.stages hcall) hdot
      with ⟨files', hrun, _⟩
    refine ⟨_, getElem?_set_of_some hcall, ?_⟩
    rw [hrun]
    exact .inl rfl

/-- Every value is the initial one, or that of a committed call. -/
def HistoryOk (root : Path) (names : List Str) (files₀ : Files)
    (s : StoreState) : Prop :=
  forall r, r ∈ names -> endsInDot r = false ->
    readRef root s.files r = readRef root files₀ r ∨
      exists (i : Nat) (call : UpdateCall) (stage : Stage),
        s.calls[i]? = some (call, stage) ∧ call.refName = r ∧
          readRef root s.files r = .ok (some call.new) ∧
          Committed root call stage

theorem HistoryOk.step {files₀ : Files} (hinv : StoreInv root names s)
    (h : HistoryOk root names files₀ s)
    (hstep : storeStep root s i = some s')
    (hok : StepOk root names s i s') : HistoryOk root names files₀ s' := by
  intro r hr hdot
  rcases hok.values r hr hdot with hsame | ⟨call, stage, hcall, hname, _, hnew,
    hcommit⟩
  · rw [hsame]
    rcases h r hr hdot with hold | ⟨j, call, stage, hcall, hname, hvalue, hcommit⟩
    · exact .inl hold
    · by_cases hj : j = i
      · subst hj
        rcases hcommit.step hinv hstep hcall (by rw [hname]; exact hdot) with
          ⟨stage', hcall', hcommit'⟩
        exact .inr ⟨j, call, stage', hcall', hname, hvalue, hcommit'⟩
      · exact .inr ⟨j, call, stage, by rw [hok.calls j hj]; exact hcall,
          hname, hvalue, hcommit⟩
  · exact .inr ⟨i, call, stage, hcall, hname, hnew, hcommit⟩

end System

/-!
# Whole runs
-/

/-- The store behaves as one atomic register for each ref. -/
structure RegistersOk (root : Path) (names : List Str) (files₀ : Files)
    (s : StoreState) : Prop where
  readable : forall r, r ∈ names -> endsInDot r = false ->
    exists value, readRef root s.files r = .ok value
  values : forall r oid, r ∈ names ->
    readRef root s.files r = .ok (some oid) ->
      readRef root files₀ r = .ok (some oid) ∨
        exists (i : Nat) (call : UpdateCall) (stage : Stage),
          s.calls[i]? = some (call, stage) ∧ call.refName = r ∧
            call.new = oid ∧ Committed root call stage
  reads : forall (i : Nat) call actual,
    s.calls[i]? = some (call, .read actual) ->
      endsInDot call.refName = false ->
        readRef root s.files call.refName = .ok actual
  commits : forall (i : Nat) call, s.calls[i]? = some (call, .tmpWritten) ->
    endsInDot call.refName = false ->
      exists s', storeStep root s i = some s' ∧
        s'.calls[i]? = some (call, .done (.ok ()))
  results : forall (i : Nat) call result,
    s.calls[i]? = some (call, .done result) ->
      endsInDot call.refName = false ->
        result = .ok () ∨ exists actual, actual ≠ call.expected ∧
          result = .error
            (.conflict call.expected actual)

theorem registersOk_of_inv {root : Path} {names : List Str} {files₀ : Files}
    {s : StoreState} (hinv : StoreInv root names s)
    (hhist : HistoryOk root names files₀ s) :
    RegistersOk root names files₀ s where
  readable := fun r hr hdot => ⟨_, readRef_eq (hinv.refs r hr) hdot⟩
  values := by
    intro r oid hr hread
    cases hdot : endsInDot r with
    | true =>
      unfold readRef at hread
      rw [hdot] at hread
      exact absurd hread (readRefOpt_dot _ _ _)
    | false =>
      rcases hhist r hr hdot with hold | ⟨i, call, stage, hcall, hname, hvalue,
        hcommit⟩
      · rw [← hold]
        exact .inl hread
      · rw [hread] at hvalue
        cases hvalue
        exact .inr ⟨i, call, stage, hcall, hname, rfl, hcommit⟩
  reads := by
    intro i call actual hcall hdot
    rw [readRef_eq (hinv.refs _ (hinv.inUse hcall)) hdot]
    exact congrArg Except.ok (hinv.stages hcall hdot)
  commits := by
    intro i call hcall hdot
    rcases tmpWritten_step (hinv.refs _ (hinv.inUse hcall))
      (hinv.stages hcall) hdot with ⟨files', hrun, _⟩
    unfold storeStep
    rw [hcall]
    simp only [hrun]
    exact ⟨_, rfl, getElem?_set_of_some hcall⟩
  results := fun i call result hcall hdot => hinv.stages hcall hdot

/--
Refs that are apart are registers in every run, and no step of a call changes
the value of another ref.
-/
theorem refs_are_registers {root : Path} {names : List Str} {files : Files}
    {calls : List UpdateCall} {schedule : List Nat} {s : StoreState}
    (hvalid : forall r, r ∈ names -> validateRefName r = .ok ())
    (hcalls : forall call, call ∈ calls -> call.refName ∈ names)
    (hfiles : forall r, r ∈ names -> RefOk root files r)
    (hapart : AllApart root names)
    (hrun : run (storeStep root) (StoreState.start files calls)
      schedule = some s) :
    RegistersOk root names files s ∧
      forall i s', storeStep root s i = some s' -> StepOk root names s i s' := by
  have hstart : StoreInv root names (StoreState.start files calls) ∧
      HistoryOk root names files (StoreState.start files calls) :=
    ⟨start_inv hcalls hfiles, fun r _ _ => .inl rfl⟩
  have hkeep : forall {s : StoreState} {i : Nat} {s' : StoreState},
      StoreInv root names s ∧ HistoryOk root names files s ->
        storeStep root s i = some s' ->
          StoreInv root names s' ∧ HistoryOk root names files s' := by
    intro s i s' h hstep
    have hok := storeStep_ok hapart hvalid h.1 hstep
    exact ⟨hok.1, h.2.step h.1 hstep hok.2⟩
  have hinv := run_inv_of_step (storeStep root) hkeep hstart hrun
  exact ⟨registersOk_of_inv hinv.1 hinv.2,
    fun i s' hstep => (storeStep_ok hapart hvalid hinv.1 hstep).2⟩

/-!
# Two refs with one temporary file
-/

private def sampleOid (c : Char) (h : isHexDigit c = true := by decide) :
    ObjectId where
  hex := List.replicate 40 c
  length_hex := List.length_replicate
  digits := by
    intro d hd
    rw [List.eq_of_mem_replicate hd]
    exact h

private def accountDir : Path := [Name.ofString "account"]

/-- `v1.2` and `v1.3` both write `v1.tmp`. -/
private def sharedTmpNames : List Str :=
  ["v1.2".toList, "v1.3".toList]

private def sharedTmpCalls : List UpdateCall :=
  [⟨"v1.2".toList, none, sampleOid 'a'⟩,
    ⟨"v1.3".toList, none, sampleOid 'b'⟩]

/-- Both calls write the temporary file before the first one renames it. -/
private def sharedTmpSchedule : List Nat :=
  [0, 0, 0, 0, 0, 1, 1, 1, 1, 1, 0, 1]

theorem shared_tmp_not_registers :
    (forall r, r ∈ sharedTmpNames -> validateRefName r = .ok ()) ∧
      exists s, run (storeStep accountDir)
          (StoreState.start ∅ sharedTmpCalls) sharedTmpSchedule = some s ∧
        ¬ RegistersOk accountDir sharedTmpNames ∅ s := by
  constructor
  · decide
  cases hrun : run (storeStep accountDir)
      (StoreState.start ∅ sharedTmpCalls) sharedTmpSchedule with
  | none =>
    have hsome : (run (storeStep accountDir)
      (StoreState.start ∅ sharedTmpCalls) sharedTmpSchedule).isSome =
        true := by decide
    rw [hrun] at hsome
    cases hsome
  | some s =>
    refine ⟨s, rfl, ?_⟩
    intro hok
    -- The second call ends with an error although it met no conflict.
    have hdone : ((run (storeStep accountDir)
        (StoreState.start ∅ sharedTmpCalls) sharedTmpSchedule).bind
          fun s => s.calls[1]?) =
            some (⟨"v1.3".toList, none, sampleOid 'b'⟩, .done
              (.error (.io .notFound))) := by
      rfl
    rw [hrun] at hdone
    rcases hok.results 1 _ _ hdone (by decide) with h | ⟨_, _, h⟩
    · cases h
    · cases h

private def apartNames : List Str :=
  ["refs/heads/main".toList, "refs/heads/v1.2".toList]

private theorem refOk_empty (root : Path) (r : Str) : RefOk root ∅ r where
  parents := fun _ _ => .inl (Assoc.find_empty _)
  tmp := by simp
  target := fun _ => .inl (Assoc.find_empty _)

private def apartCalls : List UpdateCall :=
  [⟨"refs/heads/main".toList, none, sampleOid 'a'⟩,
    ⟨"refs/heads/v1.2".toList, none, sampleOid 'b'⟩]

/-- The first call's file is renamed while the second one writes its own. -/
private def apartSchedule : List Nat :=
  [0, 0, 1, 0, 1, 1, 0, 1, 0, 1, 0, 1]

theorem refs_are_registers_two_names :
    exists s, run (storeStep accountDir) (StoreState.start ∅ apartCalls)
        apartSchedule = some s ∧
      RegistersOk accountDir apartNames ∅ s := by
  have hapart : AllApart accountDir apartNames := by
    intro r s hr hs hne
    simp only [apartNames, List.mem_cons, List.not_mem_nil, or_false] at hr hs
    rcases hr with rfl | rfl
    · rcases hs with rfl | rfl
      · exact absurd rfl hne
      · exact ⟨by decide, by decide, by decide⟩
    · rcases hs with rfl | rfl
      · exact ⟨by decide, by decide, by decide⟩
      · exact absurd rfl hne
  have hsome : (run (storeStep accountDir) (StoreState.start ∅ apartCalls)
      apartSchedule).isSome = true := by decide
  rcases Option.isSome_iff_exists.mp hsome with ⟨s, hrun⟩
  exact ⟨s, hrun, (refs_are_registers (by decide) (by decide)
    (fun r _ => refOk_empty accountDir r) hapart hrun).1⟩

end Refs
end OpenViking
