import OpenViking.Session.HistoryKept

/-!
# A recovered commit against an uninterrupted one

A commit crashes after its queue item, other workers go on, and the recovery of
its archive is compared with the run in which the commit had finished.
-/

namespace OpenViking
namespace Session

open Store CommitFaults List Nat

/-!
# What other workers do later
-/

inductive Later where
  | add (worker : Worker) (messages : List Message)
  | commit (worker : Worker) (request : CommitRequest)
deriving DecidableEq

namespace Later

def apply (cfg : Externalizer) : Later -> Store -> Store
  | add worker messages, st => (appendMessages false messages worker st).2
  | commit worker request, st =>
    (commitAsync cfg request quiet .finished worker st).2

def applyAll (cfg : Externalizer) (later : List Later) (st : Store) : Store :=
  later.foldl (fun st op => op.apply cfg st) st

/-- Added messages get ids of their own, and no worker is ahead of the archives. -/
def Fits (cfg : Externalizer) (known : List Nat) : List Later -> Store -> Prop
  | [], _ => True
  | add worker messages :: rest, st =>
    (forall id, id ∈ ids messages -> id ∉ known) ∧
      Fits cfg known rest ((add worker messages).apply cfg st)
  | commit worker request :: rest, st =>
    worker.compressionIndex ≤ st.archives.length ∧
      Fits cfg known rest ((commit worker request).apply cfg st)

end Later

/-- The live messages, the policy in force, and the tokens of the messages that the
last commit kept beyond the count it stored. -/
structure Outlook where
  live : List Message
  policy : RetentionPolicy
  excess : Nat
deriving DecidableEq

/-- The policy that a commit stores over the one in force. -/
def CommitRequest.nextPolicy (request : CommitRequest) (policy : RetentionPolicy) :
    RetentionPolicy :=
  request.policy
    (if request.persistKeepRecentCount then request.keepRecentCount.toNat
      else policy.keepRecentCount)

def Outlook.committed (cfg : Externalizer) (request : CommitRequest)
    (live : List Message) (policy : RetentionPolicy) : Outlook :=
  { live := (splitMessages cfg request live).2
    policy := request.nextPolicy policy
    excess :=
      rebuildPendingTokens (request.nextPolicy policy)
        (splitMessages cfg request live).2 }

def Outlook.next (cfg : Externalizer) (outlook : Outlook) : Later -> Outlook
  | .add _ messages => { outlook with live := outlook.live ++ messages }
  | .commit _ request =>
    if request.valid then
      Outlook.committed cfg request outlook.live outlook.policy
    else outlook

def Outlook.after (cfg : Externalizer) (outlook : Outlook) (later : List Later) :
    Outlook :=
  later.foldl (Outlook.next cfg) outlook

/-!
# One commit that finishes
-/

theorem splitMessages_nil (cfg : Externalizer) (request : CommitRequest) :
    splitMessages cfg request [] = ([], []) := by
  rcases splitMessages_split cfg request [] with ⟨shown, hshown, back, hcut, hkept⟩
  have hnil : shown = [] := map_eq_nil_iff.mp hshown
  rw [hnil] at hcut
  rcases append_eq_nil_iff.mp hcut.symm with ⟨hfront, hback⟩
  rcases hkept with heq | ⟨a, ha, _⟩
  · rw [hback] at heq
    exact Prod.ext hfront heq
  · rw [hfront] at ha
    cases ha

variable {cfg : Externalizer} {request : CommitRequest}

theorem splitMessages_length
    {messages : List Message} (h : (splitMessages cfg request messages).1 = []) :
    (splitMessages cfg request messages).2.length = messages.length := by
  rcases splitMessages_ids cfg request messages with ⟨back, kept, hids, hback, hkept⟩
  have hnone : kept = [] := by
    apply eq_nil_iff_forall_not_mem.mpr
    intro m hm
    have hin := hkept m hm
    rw [h] at hin
    cases hin
  rw [h] at hids
  have hlength := congrArg length hids
  rw [ids, ids, map_nil, nil_append, ids, length_map,
    length_map] at hlength
  rw [hback, hnone, hlength]
  rfl

section Finished

variable {cfg : Externalizer} {request : CommitRequest} {worker : Worker}
  {st : Store}

structure Finished (cfg : Externalizer) (request : CommitRequest) (st after : Store) :
    Prop where
  live : after.live = (splitMessages cfg request st.live).2
  policy : after.sessionMeta.policy = request.nextPolicy st.sessionMeta.policy
  pending : after.sessionMeta.pendingTokens = 0
  count : after.sessionMeta.messageCount = after.live.length ∨
    (st.live = [] ∧ after.sessionMeta.messageCount = st.sessionMeta.messageCount)
  length : after.archives.length = st.archives.length +
    (if (splitMessages cfg request st.live).1 = [] then 0 else 1)
  commitCount : after.sessionMeta.commitCount =
    if (splitMessages cfg request st.live).1 = [] then st.sessionMeta.commitCount
    else max st.sessionMeta.commitCount (st.archives.length + 1)
  archive : forall index, index ≤ st.archives.length ->
    after.archive index = st.archive index
  queue : forall item, item ∈ st.queue -> item ∈ after.queue

theorem taken_finished (plan : CommitPlan) :
    plan.taken Fate.finished = plan.writes := by
  unfold CommitPlan.taken Fate.written
  exact take_length

theorem finished_skip (hnone : (splitMessages cfg request st.live).1 = [])
    (index : Nat) :
    Finished cfg request st
      (commitStore quiet
        (skipPlan request index st.sessionMeta
          (splitMessages cfg request st.live).2 st) .finished st) := by
  let plan := skipPlan request index st.sessionMeta
    (splitMessages cfg request st.live).2 st
  have hwrites : plan.writes = if st.live.isEmpty then [.sessionMeta]
      else [.root, .abstract, .overview, .sessionMeta] := rfl
  have hmeta : (commitStore quiet plan .finished st).sessionMeta =
      plan.sessionMeta := by
    rw [commitStore_sessionMeta, taken_finished, hwrites]
    cases st.live.isEmpty with
    | true => rfl
    | false => rfl
  have hlive : (commitStore quiet plan .finished st).live =
      (splitMessages cfg request st.live).2 := by
    rw [commitStore_live, taken_finished, hwrites]
    cases hempty : st.live.isEmpty with
    | true =>
      rw [isEmpty_iff.mp hempty, splitMessages_nil]
      rfl
    | false => rfl
  have harchives : (commitStore quiet plan .finished st).archives =
      st.archives := by
    rw [commitStore_of_skip rfl, taken_finished, hwrites]
    cases st.live.isEmpty with
    | true => rfl
    | false => rfl
  refine ⟨hlive, ?_, ?_, ?_, ?_, ?_, ?_, ?_⟩
  · rw [hmeta]
    rfl
  · rw [hmeta]
    rfl
  · rw [hmeta, hlive, splitMessages_length hnone]
    change (if st.live.isEmpty then _ else st.live.length) = st.live.length ∨
      (_ ∧ (if st.live.isEmpty then _ else _) = _)
    cases hempty : st.live.isEmpty with
    | true => exact .inr ⟨isEmpty_iff.mp hempty, rfl⟩
    | false => exact .inl rfl
  · rw [harchives, if_pos hnone]
    rfl
  · rw [hmeta, if_pos hnone]
    rfl
  · exact fun index _ => archive_congr harchives index
  · exact fun item hitem => mem_commitStore_queue.mpr (.inl hitem)

theorem finished_archive (hsome : (splitMessages cfg request st.live).1 ≠ []) :
    Finished cfg request st
      (commitStore quiet
        (archivePlan request st.archives.length st.sessionMeta
          (splitMessages cfg request st.live).1
          (splitMessages cfg request st.live).2 st) .finished st) := by
  let plan := archivePlan request st.archives.length st.sessionMeta
    (splitMessages cfg request st.live).1 (splitMessages cfg request st.live).2 st
  have hall (write : CommitWrite) (hwrite : write ∈ publishing) :
      write ∈ plan.taken .finished := by
    rw [taken_finished]
    exact (idxOf_publishing request.turnBudget hwrite).1
  have hindex : plan.index = st.archives.length + 1 := rfl
  rcases commitStore_archives quiet .finished hindex with
    ⟨hother, hlow, hhigh, hraw⟩
  have hwritten : .archiveRaw ∈ plan.taken .finished :=
    (written_before (by decide) (hall .root (by decide))).1
  rw [if_pos hwritten] at hraw
  rcases Option.bind_eq_some_iff.mp hraw with ⟨a, ha, _⟩
  have hcreated : plan.index ≤
      (commitStore quiet plan .finished st).archives.length :=
    (archive_range ha).2
  have hmeta : (commitStore quiet plan .finished st).sessionMeta =
      plan.sessionMeta := by
    rw [commitStore_sessionMeta, if_pos (hall _ (by decide))]
  have hlive : (commitStore quiet plan .finished st).live =
      (splitMessages cfg request st.live).2 := by
    rw [commitStore_live, if_pos (hall _ (by decide))]
    rfl
  refine ⟨hlive, ?_, ?_, ?_, ?_, ?_, ?_, ?_⟩
  · rw [hmeta]
    rfl
  · rw [hmeta]
    rfl
  · rw [hmeta, hlive]
    exact .inl rfl
  · rw [if_neg hsome]
    exact Nat.le_antisymm hhigh hcreated
  · rw [hmeta, if_neg hsome]
    rfl
  · intro index hle
    apply hother
    rw [hindex]
    exact Nat.ne_of_lt (Nat.lt_succ_of_le hle)
  · exact fun item hitem => mem_commitStore_queue.mpr (.inl hitem)

theorem commit_finished (cfg : Externalizer) (hvalid : request.valid = true)
    (hworker : worker.compressionIndex ≤ st.archives.length)
    (hcount : st.sessionMeta.commitCount ≤ st.archives.length) :
    Finished cfg request st
      (commitAsync cfg request quiet .finished worker st).2 := by
  unfold commitAsync commitPlan
  rw [if_pos hvalid]
  dsimp only
  by_cases hempty : (splitMessages cfg request st.live).1.isEmpty = true
  · rw [if_pos hempty]
    exact finished_skip (isEmpty_iff.mp hempty) _
  rw [if_neg hempty]
  have hread : readMeta quiet.metaUnreadable worker st =
      st.sessionMeta := rfl
  rw [hread, compressionIndex_eq (quiet_truthful st) hworker hcount]
  apply finished_archive
  intro hnil
  rw [hnil] at hempty
  exact hempty rfl

end Finished

/-!
# The pending tokens
-/

variable {policy : RetentionPolicy}

theorem pushedOut_rebuild
    (hmode : policy.turnBudget = false) (live : List Message) (m : Message) :
    rebuildPendingTokens policy (live ++ [m]) =
      rebuildPendingTokens policy live +
        pushedOutTokens policy.keepRecentCount live m := by
  unfold rebuildPendingTokens pushedOutTokens
  rw [hmode]
  simp only [Bool.false_and, Bool.false_eq_true, if_false]
  by_cases hzero : policy.keepRecentCount = 0
  · rw [if_pos hzero, if_pos hzero, if_pos hzero, messageTokens_append]
    simp [messageTokens]
  rw [if_neg hzero, if_neg hzero, if_neg hzero]
  generalize policy.keepRecentCount = keep at hzero
  rw [length_append, length_singleton]
  by_cases hkeep : keep < live.length + 1
  · rw [if_pos hkeep]
    have hcut : live.length + 1 - keep = (live.length - keep) + 1 := by omega
    have hat : live.length + 1 - (keep + 1) = live.length - keep := by omega
    rw [hcut, hat, take_add_one, messageTokens_append]
    congr 1
    rw [take_append_of_le_length (by omega)]
  · rw [if_neg hkeep]
    have hcut : live.length + 1 - keep = 0 := by omega
    have hcut' : live.length - keep = 0 := by omega
    rw [hcut, hcut']
    rfl

theorem applyAppended_policy (messages : List Message) (sessionMeta : SessionMeta)
    (live : List Message) :
    (applyAppended sessionMeta live messages).policy = sessionMeta.policy := by
  induction messages generalizing sessionMeta live with
  | nil => rfl
  | cons m rest ih =>
    rw [applyAppended, ih]

theorem applyAppended_pending
    (hmode : policy.turnBudget = false) (messages : List Message)
    (sessionMeta : SessionMeta) (live : List Message)
    (hpolicy : sessionMeta.policy = policy) {excess : Nat}
    (h : sessionMeta.pendingTokens + excess = rebuildPendingTokens policy live) :
    (applyAppended sessionMeta live messages).pendingTokens + excess =
      rebuildPendingTokens policy (live ++ messages) := by
  induction messages generalizing sessionMeta live with
  | nil =>
    rw [append_nil]
    exact h
  | cons m rest ih =>
    rw [applyAppended]
    have hsplit : live ++ m :: rest = (live ++ [m]) ++ rest := by simp
    rw [hsplit]
    apply ih
    · exact hpolicy
    · rw [pushedOut_rebuild hmode, ← h, hpolicy, hmode]
      simp only [Bool.false_eq_true, if_false]
      omega

theorem rebuild_turnBudget {live : List Message}
    (hvalid : request.valid = true) (hmode : request.turnBudget = true) :
    rebuildPendingTokens (request.nextPolicy policy)
      (splitMessages cfg request live).2 = 0 := by
  have hbudget : 0 < request.effectiveTokenBudget := by
    unfold CommitRequest.valid at hvalid
    rw [if_pos hmode] at hvalid
    exact of_decide_eq_true hvalid
  unfold rebuildPendingTokens CommitRequest.nextPolicy CommitRequest.policy
    splitMessages
  rw [hmode]
  dsimp only
  rw [if_pos rfl, if_pos rfl, if_pos rfl]
  generalize cfg.externalize live = messages
  by_cases hkeep : request.effectiveKeepTurns = 0
  · have hnone : (planRetention messages request.effectiveKeepTurns
        request.effectiveTokenBudget request.effectiveMinTail).retainedMessages =
          [] := by
      unfold planRetention
      rw [hkeep]
      simp [wholePlan]
    rw [hnone, hkeep]
    simp [messageTokens]
  · have hkeeps := pos_of_ne_zero hkeep
    rw [if_pos (by simp [hkeeps, hbudget]), planRetention_again]
    rfl

/-!
# The two runs
-/

/-- The archive of the interrupted commit waits with its marker and its item. -/
structure Waiting (index : Nat) (marker : Phase1) (item : QueueItem)
    (outlook : Outlook) (st : Store) : Prop where
  live : st.live = outlook.live
  archive : exists a, st.archive index = some a ∧ a.phase1 = some marker ∧
    a.failed = none
  queue : item ∈ st.queue
  commitCount : max st.sessionMeta.commitCount index = st.archives.length

/-- The metadata of the uninterrupted run follows its messages. -/
structure UpToDate (outlook : Outlook) (st : Store) : Prop where
  live : st.live = outlook.live
  policy : st.sessionMeta.policy = outlook.policy
  pending : st.sessionMeta.pendingTokens + outlook.excess =
    rebuildPendingTokens outlook.policy outlook.live
  turn : outlook.policy.turnBudget = true -> outlook.excess = 0
  messageCount : st.sessionMeta.messageCount = st.live.length
  commitCount : st.sessionMeta.commitCount = st.archives.length

theorem appendMessages_live (unreadable : Bool) (messages : List Message)
    (worker : Worker) (st : Store) :
    (appendMessages unreadable messages worker st).2.live = st.live ++ messages := by
  unfold appendMessages
  split
  · next hempty =>
      rw [isEmpty_iff.mp hempty, append_nil]
  · rfl

theorem appendMessages_archives (unreadable : Bool) (messages : List Message)
    (worker : Worker) (st : Store) :
    (appendMessages unreadable messages worker st).2.archives = st.archives := by
  unfold appendMessages
  split
  · rfl
  · rfl

theorem appendMessages_commitCount (messages : List Message) (worker : Worker)
    (st : Store) :
    (appendMessages false messages worker st).2.sessionMeta.commitCount =
      st.sessionMeta.commitCount := by
  unfold appendMessages
  split
  · rfl
  · exact applyAppended_commitCount messages _ _

namespace Waiting

variable {cfg : Externalizer} {index : Nat} {marker : Phase1} {item : QueueItem}
  {outlook : Outlook} {st : Store}

theorem add (h : Waiting index marker item outlook st) (worker : Worker)
    (messages : List Message) :
    Waiting index marker item (outlook.next cfg (Later.add worker messages))
      ((Later.add worker messages).apply cfg st) := by
  have harchives := appendMessages_archives false messages worker st
  refine ⟨?_, ?_, ?_, ?_⟩
  · change (appendMessages false messages worker st).2.live = _
    rw [appendMessages_live, h.live]
    rfl
  · rcases h.archive with ⟨a, ha, hrest⟩
    refine ⟨a, ?_, hrest⟩
    exact (archive_congr harchives index).trans ha
  · change item ∈ (appendMessages false messages worker st).2.queue
    unfold appendMessages
    split
    · exact h.queue
    · exact h.queue
  · change max (appendMessages false messages worker st).2.sessionMeta.commitCount
      index = (appendMessages false messages worker st).2.archives.length
    rw [appendMessages_commitCount, harchives]
    exact h.commitCount

theorem commit (h : Waiting index marker item outlook st) {worker : Worker}
    {request : CommitRequest}
    (hworker : worker.compressionIndex ≤ st.archives.length) :
    Waiting index marker item (outlook.next cfg (Later.commit worker request))
      ((Later.commit worker request).apply cfg st) := by
  unfold Later.apply Outlook.next
  by_cases hvalid : request.valid = true
  · dsimp only
    rw [if_pos hvalid]
    have hle : index ≤ st.archives.length := by
      rw [← h.commitCount]
      exact le_max_right _ _
    have hcount : st.sessionMeta.commitCount ≤ st.archives.length := by
      rw [← h.commitCount]
      exact le_max_left _ _
    have hfinished := commit_finished cfg hvalid hworker hcount
    refine ⟨?_, ?_, hfinished.queue item h.queue, ?_⟩
    · rw [hfinished.live, h.live]
      rfl
    · rcases h.archive with ⟨a, ha, hrest⟩
      exact ⟨a, (hfinished.archive index hle).trans ha, hrest⟩
    · rw [hfinished.commitCount, hfinished.length]
      have hmax := h.commitCount
      split
      · rw [hmax, add_zero]
      · omega
  · dsimp only
    unfold commitAsync
    rw [if_neg hvalid, if_neg hvalid]
    exact h

end Waiting

namespace UpToDate

variable {cfg : Externalizer} {outlook : Outlook} {st : Store}

theorem add (h : UpToDate outlook st) (worker : Worker) (messages : List Message) :
    UpToDate (outlook.next cfg (Later.add worker messages))
      ((Later.add worker messages).apply cfg st) := by
  unfold Later.apply Outlook.next appendMessages
  dsimp only
  by_cases hempty : messages.isEmpty = true
  · rw [if_pos hempty, isEmpty_iff.mp hempty, append_nil]
    exact h
  rw [if_neg hempty]
  have hread : readMeta false worker st = st.sessionMeta := rfl
  rw [hread]
  refine ⟨?_, ?_, ?_, h.turn, ?_, ?_⟩
  · dsimp only
    rw [h.live]
  · exact (applyAppended_policy messages _ _).trans h.policy
  · change (if st.sessionMeta.policy.turnBudget then _ else _) + _ = _
    rw [h.policy, h.live]
    cases hmode : outlook.policy.turnBudget with
    | true =>
      rw [if_pos rfl, h.turn hmode, add_zero]
    | false =>
      rw [if_neg (by decide)]
      exact applyAppended_pending hmode messages _ _ h.policy h.pending
  · rfl
  · exact (applyAppended_commitCount messages _ _).trans h.commitCount

theorem commit (h : UpToDate outlook st) {worker : Worker}
    {request : CommitRequest}
    (hworker : worker.compressionIndex ≤ st.archives.length) :
    UpToDate (outlook.next cfg (Later.commit worker request))
      ((Later.commit worker request).apply cfg st) := by
  unfold Later.apply Outlook.next
  by_cases hvalid : request.valid = true
  · dsimp only
    rw [if_pos hvalid]
    have hcount : st.sessionMeta.commitCount ≤ st.archives.length :=
      le_of_eq h.commitCount
    have hfinished := commit_finished cfg hvalid hworker hcount
    refine ⟨?_, ?_, ?_, ?_, ?_, ?_⟩
    · rw [hfinished.live, h.live]
      rfl
    · rw [hfinished.policy, h.policy]
      rfl
    · rw [hfinished.pending, zero_add]
      rfl
    · exact fun hmode => rebuild_turnBudget hvalid hmode
    · rcases hfinished.count with heq | ⟨hnil, heq⟩
      · exact heq
      · rw [heq, h.messageCount, hfinished.live, hnil, splitMessages_nil]
    · rw [hfinished.commitCount, hfinished.length, h.commitCount]
      split
      · rfl
      · omega
  · dsimp only
    unfold commitAsync
    rw [if_neg hvalid, if_neg hvalid]
    exact h

end UpToDate

theorem splitMessages_subset {messages : List Message} {id : Nat}
    (h : id ∈ ids (splitMessages cfg request messages).2) : id ∈ ids messages := by
  rcases splitMessages_ids cfg request messages with ⟨back, kept, hids, hback, hkept⟩
  rw [hback, ids_append] at h
  rw [hids]
  rcases mem_append.mp h with hin | hin
  · rcases mem_map.mp hin with ⟨m, hm, heq⟩
    exact mem_append_left _ (mem_map.mpr ⟨m, hkept m hm, heq⟩)
  · exact mem_append_right _ hin

section Runs

variable {cfg : Externalizer} {known : List Nat} {index : Nat} {marker : Phase1}
  {item : QueueItem}

variable {later : List Later} {outlook : Outlook}

theorem Waiting.run {st : Store}
    (h : Waiting index marker item outlook st) (hfits : Later.Fits cfg known later st) :
    Waiting index marker item (outlook.after cfg later)
      (Later.applyAll cfg later st) := by
  induction later generalizing outlook st with
  | nil => exact h
  | cons op rest ih =>
    cases op with
    | add worker messages => exact ih (h.add worker messages) hfits.2
    | commit worker request => exact ih (h.commit hfits.1) hfits.2

theorem live_after {st : Store} (hfits : Later.Fits cfg known later st) {id : Nat}
    (hid : id ∈ ids (outlook.after cfg later).live) :
    id ∈ ids outlook.live ∨ id ∉ known := by
  induction later generalizing outlook st with
  | nil => exact .inl hid
  | cons op rest ih =>
    cases op with
    | add worker messages =>
      rcases ih hfits.2 hid with hin | hout
      · change id ∈ ids (outlook.live ++ messages) at hin
        rw [ids_append] at hin
        rcases mem_append.mp hin with hold | hnew
        · exact .inl hold
        · exact .inr (hfits.1 id hnew)
      · exact .inr hout
    | commit worker request =>
      rcases ih hfits.2 hid with hin | hout
      · apply Or.inl
        unfold Outlook.next at hin
        dsimp only at hin
        split at hin
        · exact splitMessages_subset hin
        · exact hin
      · exact .inr hout

/-- Both runs go on alike. -/
theorem UpToDate.run {st st' : Store}
    (hwaiting : Waiting index marker item outlook st) (h : UpToDate outlook st')
    (hlength : st.archives.length = st'.archives.length)
    (hfits : Later.Fits cfg known later st) :
    UpToDate (outlook.after cfg later) (Later.applyAll cfg later st') ∧
      (Later.applyAll cfg later st).archives.length =
        (Later.applyAll cfg later st').archives.length := by
  induction later generalizing outlook st st' with
  | nil => exact ⟨h, hlength⟩
  | cons op rest ih =>
    cases op with
    | add worker messages =>
      apply ih (hwaiting.add worker messages) (h.add worker messages) _ hfits.2
      change (appendMessages false messages worker st).2.archives.length =
        (appendMessages false messages worker st').2.archives.length
      rw [appendMessages_archives, appendMessages_archives]
      exact hlength
    | commit worker request =>
      have hworker := hfits.1
      apply ih (hwaiting.commit hworker)
        (h.commit (by rw [← hlength]; exact hworker)) _ hfits.2
      by_cases hvalid : request.valid = true
      · have hfirst := commit_finished cfg hvalid hworker
          (le_trans (le_max_left _ index)
            (le_of_eq hwaiting.commitCount))
        have hsecond := commit_finished cfg hvalid
          (by rw [← hlength]; exact hworker) (le_of_eq h.commitCount)
        change (commitAsync cfg request _ _ worker st).2.archives.length =
          (commitAsync cfg request _ _ worker st').2.archives.length
        rw [hfirst.length, hsecond.length, hwaiting.live, h.live, hlength]
      · unfold Later.apply commitAsync
        dsimp only
        rw [if_neg hvalid, if_neg hvalid]
        exact hlength

end Runs

/-!
# The interrupted commit
-/

/-- The recovery says whether the root was rewritten, and then leaves the live
messages and the metadata of the other run. -/
def Matches (reader : Worker) (index : Nat) (rewritten : Prop)
    (interrupted uninterrupted : Store) : Prop :=
  let recovered := ensurePhase1Ready false reader index interrupted
  (recovered.1 = true <-> rewritten) ∧
    (rewritten -> recovered.2.live = uninterrupted.live ∧
      recovered.2.sessionMeta = uninterrupted.sessionMeta)

/-- The run with the crash and the recovery against the run in which the commit
finished. -/
def RecoveredLike (cfg : Externalizer) (request : CommitRequest) (worker : Worker)
    (st : Store) (written : Nat) (later : List Later) (reader : Worker) : Prop :=
  Matches reader (st.archives.length + 1)
    (.root ∈ (archiveWrites request.turnBudget).take written)
    (Later.applyAll cfg later
      (commitAsync cfg request quiet (.crashed written) worker
        st).2)
    (Later.applyAll cfg later
      (commitAsync cfg request quiet .finished worker st).2)

/-- What the later operations must leave: the kept messages at the head of the live
ones under the policy of the marker, or, when the root was not rewritten, a sign of
it. -/
def Undisturbed (cfg : Externalizer) (request : CommitRequest) (st : Store)
    (written : Nat) (later : List Later) : Prop :=
  let split := splitMessages cfg request st.live
  let taken := (archiveWrites request.turnBudget).take written
  if .readyMarker ∈ taken then True
  else if .root ∈ taken then
    let outlook :=
      (Outlook.committed cfg request st.live st.sessionMeta.policy).after cfg later
    (ids outlook.live).take split.2.length = ids split.2 ∧
      outlook.policy = request.markerPolicy ∧ outlook.excess = 0
  else
    let outlook :=
      Outlook.after cfg
        { live := st.live, policy := st.sessionMeta.policy, excess := 0 } later
    ¬ ((ids outlook.live).take split.2.length = ids split.2 ∧
      forall id, id ∈ ids split.1 -> id ∈ ids split.2 ∨ id ∉ ids outlook.live)

theorem phase1Applied_iff (archivedIds retainedIds liveIds : List Nat) :
    phase1Applied archivedIds retainedIds liveIds = true <->
      liveIds.take retainedIds.length = retainedIds ∧
        forall id, id ∈ archivedIds -> id ∈ retainedIds ∨ id ∉ liveIds := by
  unfold phase1Applied
  rw [Bool.and_eq_true, beq_iff_eq, all_eq_true]
  simp only [Bool.or_eq_true, Bool.not_eq_true', contains_eq_mem,
    decide_eq_true_eq, decide_eq_false_iff_not]

theorem editedSlot_waiting {faults : CommitFaults} (plan : CommitPlan)
    (hquiet : faults.archiveMetaUnreadable = false) {writes : List CommitWrite}
    (hready : .readyMarker ∉ writes) (a : Archive)
    (hmarker : a.phase1 = some plan.marker) (hfailed : a.failed = none) :
    exists b, editedSlot faults plan writes (some a) = some b ∧
      b.phase1 = some plan.marker ∧ b.failed = none := by
  induction writes generalizing a with
  | nil => exact ⟨a, rfl, hmarker, hfailed⟩
  | cons write rest ih =>
    have hrest : .readyMarker ∉ rest := fun h => hready (mem_cons_of_mem _ h)
    rw [editedSlot_cons]
    cases write with
    | phase1Marker => exact ih hrest _ rfl hfailed
    | archiveRaw => exact ih hrest _ hmarker hfailed
    | retentionPlan =>
      have hsame : CommitWrite.retentionPlan.editSlot faults plan (some a) =
          some a := by
        unfold CommitWrite.editSlot CommitWrite.edit
        rw [hquiet]
        rfl
      rw [hsame]
      exact ih hrest a hmarker hfailed
    | readyMarker => exact absurd mem_cons_self hready
    | _ => exact ih hrest a hmarker hfailed

section Interrupted

variable {cfg : Externalizer} {request : CommitRequest} {worker : Worker}
  {st : Store}

def interruptedPlan (cfg : Externalizer) (request : CommitRequest) (st : Store) :
    CommitPlan :=
  archivePlan request st.archives.length st.sessionMeta
    (splitMessages cfg request st.live).1 (splitMessages cfg request st.live).2 st

theorem commitAsync_archives (hvalid : request.valid = true)
    (hsome : (splitMessages cfg request st.live).1 ≠ [])
    (hworker : worker.compressionIndex ≤ st.archives.length)
    (hcount : st.sessionMeta.commitCount ≤ st.archives.length) (fate : Fate) :
    (commitAsync cfg request quiet fate worker st).2 =
      commitStore quiet (interruptedPlan cfg request st) fate st := by
  unfold commitAsync commitPlan
  rw [if_pos hvalid]
  dsimp only
  have hne : ¬ (splitMessages cfg request st.live).1.isEmpty = true :=
    fun h => hsome (isEmpty_iff.mp h)
  have hread : readMeta quiet.metaUnreadable worker st =
      st.sessionMeta := rfl
  rw [if_neg hne, hread,
    compressionIndex_eq (quiet_truthful st) hworker hcount]
  rfl

theorem interrupted_waiting {written : Nat}
    (hcount : st.sessionMeta.commitCount ≤ st.archives.length)
    (hitem : .enqueue ∈ (archiveWrites request.turnBudget).take written)
    (hready : .readyMarker ∉
      (archiveWrites request.turnBudget).take written)
    {outlook : Outlook}
    (hlive : outlook.live =
      if .root ∈ (archiveWrites request.turnBudget).take written then
        (splitMessages cfg request st.live).2
      else st.live) :
    Waiting (st.archives.length + 1) (interruptedPlan cfg request st).marker
      (interruptedPlan cfg request st).item outlook
      (commitStore quiet (interruptedPlan cfg request st)
        (.crashed written) st) := by
  let plan := interruptedPlan cfg request st
  let after := commitStore quiet plan (.crashed written) st
  have hindex : plan.index = st.archives.length + 1 := rfl
  have hslot := (applyWrites_archive quiet plan
    (plan.taken (.crashed written)) { st with nextTask := st.nextTask + 1 }
    (succ_pos _) (le_of_eq hindex)).1
  rw [← commitStore_of_not_marked (by intro _ heq; cases heq)] at hslot
  have hnone : ({ st with nextTask := st.nextTask + 1 } : Store).archive
      plan.index = none :=
    archive_eq_none_of_lt (lt_succ_self _)
  rw [hnone] at hslot
  have hfound : exists a, after.archive plan.index = some a ∧
      a.phase1 = some plan.marker ∧ a.failed = none := by
    cases written with
    | zero => cases hitem
    | succ written =>
      have htaken : plan.taken (.crashed (written + 1)) =
          .phase1Marker :: (plan.taken (.crashed (written + 1))).tail :=
        rfl
      have hrest : .readyMarker ∉ (plan.taken (.crashed (written + 1))).tail :=
        fun h => hready (mem_of_mem_tail h)
      rw [htaken, editedSlot_cons] at hslot
      have hquiet : quiet.archiveMetaUnreadable = false := rfl
      rcases editedSlot_waiting plan hquiet hrest
        { Archive.empty with phase1 := some plan.marker } rfl rfl with
        ⟨b, hb, hmarker, hfailed⟩
      exact ⟨b, hslot.trans hb, hmarker, hfailed⟩
  rcases commitStore_archives quiet (.crashed written) hindex with
    ⟨_, _, hhigh, _⟩
  refine ⟨?_, hfound, mem_commitStore_queue.mpr (.inr ⟨hitem, rfl⟩), ?_⟩
  · rw [hlive]
    exact commitStore_live
  rcases hfound with ⟨a, ha, _⟩
  have hlow := (archive_range ha).2
  have hlength : after.archives.length = st.archives.length + 1 :=
    le_antisymm hhigh hlow
  have hsaved : after.sessionMeta = if .sessionMeta ∈
      plan.taken (.crashed written) then plan.sessionMeta
      else st.sessionMeta := commitStore_sessionMeta
  change max after.sessionMeta.commitCount (st.archives.length + 1) =
    after.archives.length
  rw [hlength, hsaved]
  split
  · change max (max st.sessionMeta.commitCount (st.archives.length + 1))
      (st.archives.length + 1) = _
    omega
  · omega

theorem uninterrupted_upToDate (hvalid : request.valid = true)
    (hsome : (splitMessages cfg request st.live).1 ≠ [])
    (hcount : st.sessionMeta.commitCount ≤ st.archives.length) :
    UpToDate (Outlook.committed cfg request st.live st.sessionMeta.policy)
      (commitStore quiet (interruptedPlan cfg request st)
        .finished st) := by
  have hfinished := finished_archive hsome
  refine ⟨hfinished.live, hfinished.policy, ?_, ?_, ?_, ?_⟩
  · change (commitStore _ (archivePlan _ _ _ _ _ _) _ _).sessionMeta.pendingTokens +
      _ = _
    rw [hfinished.pending, zero_add]
    rfl
  · exact fun hmode => rebuild_turnBudget hvalid hmode
  · rcases hfinished.count with heq | ⟨hnil, _⟩
    · exact heq
    · rw [hnil, splitMessages_nil] at hsome
      exact absurd rfl hsome
  · change (commitStore _ (archivePlan _ _ _ _ _ _) _ _).sessionMeta.commitCount =
      (commitStore _ (archivePlan _ _ _ _ _ _) _ _).archives.length
    rw [hfinished.commitCount, hfinished.length, if_neg hsome, if_neg hsome]
    omega

end Interrupted

section Published

variable {cfg : Externalizer} {request : CommitRequest} {st : Store}

theorem uninterrupted_waiting
    (hsome : (splitMessages cfg request st.live).1 ≠ [])
    (hcount : st.sessionMeta.commitCount ≤ st.archives.length) :
    Waiting (st.archives.length + 1)
      { (interruptedPlan cfg request st).marker with ready := true }
      (interruptedPlan cfg request st).item
      (Outlook.committed cfg request st.live st.sessionMeta.policy)
      (commitStore quiet (interruptedPlan cfg request st)
        .finished st) := by
  let plan := interruptedPlan cfg request st
  have hfinished := finished_archive hsome
  have hindex : plan.index = st.archives.length + 1 := rfl
  have hslot := (applyWrites_archive quiet plan
    (plan.taken .finished) { st with nextTask := st.nextTask + 1 }
    (succ_pos _) (le_of_eq hindex)).1
  rw [← commitStore_of_not_marked (by intro _ heq; cases heq), taken_finished] at hslot
  have hnone : ({ st with nextTask := st.nextTask + 1 } : Store).archive
      plan.index = none :=
    archive_eq_none_of_lt (lt_succ_self _)
  have hedited : editedSlot quiet plan
      (archiveWrites request.turnBudget) none =
        some { Archive.empty with
          phase1 := some { plan.marker with ready := true }
          raw := some plan.archived } := by
    cases request.turnBudget with
    | false => rfl
    | true => rfl
  rw [hnone] at hslot
  refine ⟨hfinished.live, ⟨_, hslot.trans hedited, rfl, rfl⟩, ?_, ?_⟩
  · apply mem_commitStore_queue.mpr
    refine .inr ⟨?_, rfl⟩
    rw [taken_finished]
    change .enqueue ∈ archiveWrites request.turnBudget
    cases request.turnBudget with
    | false => decide
    | true => decide
  · change max (commitStore _ (archivePlan _ _ _ _ _ _) _ _).sessionMeta.commitCount
      (st.archives.length + 1) =
        (commitStore _ (archivePlan _ _ _ _ _ _) _ _).archives.length
    rw [hfinished.commitCount, hfinished.length, if_neg hsome, if_neg hsome]
    omega

end Published

theorem ready_means_all {turnBudget : Bool} {written : Nat}
    (h : .readyMarker ∈ (archiveWrites turnBudget).take written) :
    .root ∈ (archiveWrites turnBudget).take written := by
  rw [ready_written h]
  exact (idxOf_publishing turnBudget (by decide)).1

theorem ensure_waiting {index : Nat} {marker : Phase1} {item : QueueItem}
    {outlook : Outlook} {st : Store} {archivedIds retainedIds : List Nat}
    (h : Waiting index marker item outlook st) (hready : marker.ready = false)
    (htask : marker.taskId = some item.task)
    (harchived : marker.archivedMessageIds = some archivedIds)
    (hretained : marker.retainedMessageIds = some retainedIds) (reader : Worker) :
    (phase1Applied archivedIds retainedIds (ids st.live) = true ∧
        ensurePhase1Ready false reader index st =
          (true, publishRecovered st.sessionMeta index marker st)) ∨
      (phase1Applied archivedIds retainedIds (ids st.live) = false ∧
        ensurePhase1Ready false reader index st =
          (false, markPhase1Failed index st)) := by
  rcases h.archive with ⟨a, ha, hphase1, hfailed⟩
  have hwork := hasWork_of_mem h.queue
  have hiff : Recoverable st marker <->
      phase1Applied archivedIds retainedIds (ids st.live) = true := by
    unfold Recoverable
    rw [htask, harchived, hretained]
    simp [hwork]
  rcases ensurePhase1Ready_cases false reader index st with ⟨_, hall⟩ |
    ⟨b, other, hb, hother, _, ⟨hsome, _⟩ | ⟨_, heq⟩⟩
  · rw [hall a marker ha hphase1] at hready
    cases hready
  · cases hb.symm.trans ha
    rw [hfailed] at hsome
    cases hsome
  · cases hb.symm.trans ha
    cases hother.symm.trans hphase1
    rw [heq]
    have hread : readMeta false reader st = st.sessionMeta := rfl
    rw [hread]
    rcases recoverPhase1_cases st.sessionMeta index marker st with
      ⟨hrecoverable, hresult⟩ | ⟨hlost, hresult⟩
    · exact .inl ⟨hiff.mp hrecoverable, hresult⟩
    · exact .inr ⟨Bool.eq_false_iff.mpr (mt hiff.mpr hlost), hresult⟩

theorem length_of_waiting
    {st : Store} {fate : Fate} {marker : Phase1} {item : QueueItem}
    {outlook : Outlook}
    (h : Waiting (st.archives.length + 1) marker item outlook
      (commitStore quiet (interruptedPlan cfg request st) fate st)) :
    (commitStore quiet (interruptedPlan cfg request st) fate
      st).archives.length = st.archives.length + 1 := by
  have hindex : (interruptedPlan cfg request st).index =
      st.archives.length + 1 := rfl
  apply le_antisymm (commitStore_archives quiet fate hindex).2.2.1
  rw [← h.commitCount]
  exact le_max_right _ _

section Compared

variable {index : Nat} {marker : Phase1} {item : QueueItem} {outlook : Outlook}
  {interrupted uninterrupted : Store} {archivedIds retainedIds : List Nat}
  {rewritten : Prop}

section

variable (reader : Worker) (h : Waiting index marker item outlook interrupted)

include reader h

theorem matches_of_ready (hready : marker.ready = true) (hrewritten : rewritten) :
    Matches reader index rewritten interrupted interrupted := by
  rcases h.archive with ⟨a, ha, hphase1, _⟩
  have hensured : ensurePhase1Ready false reader index interrupted =
      (true, interrupted) := by
    rcases ensurePhase1Ready_cases false reader index interrupted with
      ⟨heq, _⟩ | ⟨b, other, hb, hother, hnot, _⟩
    · exact heq
    · cases hb.symm.trans ha
      cases hother.symm.trans hphase1
      rw [hready] at hnot
      cases hnot
  unfold Matches
  rw [hensured]
  exact ⟨⟨fun _ => hrewritten, fun _ => rfl⟩, fun _ => ⟨rfl, rfl⟩⟩

theorem matches_unwritten_iff
    (hready : marker.ready = false) (htask : marker.taskId = some item.task)
    (harchived : marker.archivedMessageIds = some archivedIds)
    (hretained : marker.retainedMessageIds = some retainedIds)
    (hnot : ¬ rewritten) :
    Matches reader index rewritten interrupted uninterrupted <->
      ¬ phase1Applied archivedIds retainedIds (ids outlook.live) = true := by
  rw [← h.live]
  unfold Matches
  rcases ensure_waiting h hready htask harchived hretained reader with
    ⟨hyes, heq⟩ | ⟨hno, heq⟩
  · rw [heq]
    constructor
    · intro hmatches
      exact absurd (hmatches.1.mp rfl) hnot
    · intro hfalse
      exact absurd hyes hfalse
  · rw [heq]
    constructor
    · intro _ hyes
      rw [hno] at hyes
      cases hyes
    · intro _
      refine ⟨?_, fun hrewritten => absurd hrewritten hnot⟩
      constructor
      · nofun
      · exact fun hrewritten => absurd hrewritten hnot

theorem matches_rewritten_iff (hend : UpToDate outlook uninterrupted)
    (hlength : interrupted.archives.length = uninterrupted.archives.length)
    (hready : marker.ready = false) (htask : marker.taskId = some item.task)
    (harchived : marker.archivedMessageIds = some archivedIds)
    (hretained : marker.retainedMessageIds = some retainedIds)
    (hrewritten : rewritten) :
    Matches reader index rewritten interrupted uninterrupted <->
      phase1Applied archivedIds retainedIds (ids outlook.live) = true ∧
        outlook.policy = marker.policy ∧ outlook.excess = 0 := by
  have hsum := hend.pending
  unfold Matches
  rcases ensure_waiting h hready htask harchived hretained reader with
    ⟨hyes, heq⟩ | ⟨hno, heq⟩
  · rw [heq]
    rw [h.live] at hyes
    constructor
    · intro hmatches
      have hmeta := (hmatches.2 hrewritten).2
      have hpolicy : marker.policy = uninterrupted.sessionMeta.policy :=
        congrArg SessionMeta.policy hmeta
      have hpending : rebuildPendingTokens marker.policy interrupted.live =
          uninterrupted.sessionMeta.pendingTokens :=
        congrArg SessionMeta.pendingTokens hmeta
      rw [hend.policy] at hpolicy
      refine ⟨hyes, hpolicy.symm, ?_⟩
      rw [← hpolicy, ← h.live, hpending] at hsum
      omega
    · intro hcondition
      rcases hcondition with ⟨_, hpolicy, hexcess⟩
      refine ⟨⟨fun _ => hrewritten, fun _ => rfl⟩, ?_⟩
      intro _
      refine ⟨h.live.trans hend.live.symm, ?_⟩
      rw [hexcess, add_zero, hpolicy, ← h.live] at hsum
      change recoveredMeta _ _ _ _ = _
      unfold recoveredMeta
      rw [h.commitCount, hlength, ← hend.commitCount, ← hsum, ← hpolicy,
        ← hend.policy, h.live, ← hend.live, ← hend.messageCount]
  · rw [heq]
    rw [h.live] at hno
    constructor
    · intro hmatches
      have hfalse := hmatches.1.mpr hrewritten
      cases hfalse
    · intro hcondition
      rw [hcondition.1] at hno
      cases hno

end

end Compared

theorem archived_gone {st st' : Store} {later : List Later} {outlook : Outlook}
    (hlive : outlook.live = (splitMessages cfg request st.live).2)
    (hfits : Later.Fits cfg (ids st.live) later st') {id : Nat}
    (hid : id ∈ ids (splitMessages cfg request st.live).1) :
    id ∈ ids (splitMessages cfg request st.live).2 ∨
      id ∉ ids (outlook.after cfg later).live := by
  by_cases hin : id ∈ ids (splitMessages cfg request st.live).2
  · exact .inl hin
  apply Or.inr
  intro hback
  rcases live_after hfits hback with hkept | hnew
  · rw [hlive] at hkept
    exact hin hkept
  · apply hnew
    rcases splitMessages_ids cfg request st.live with ⟨back, _, hids, _⟩
    rw [hids]
    exact mem_append_left _ hid

/-- A recovered commit is like an uninterrupted one exactly when the later
operations have left its traces. -/
theorem recovered_commit_iff (cfg : Externalizer) (request : CommitRequest)
    (worker reader : Worker) (st : Store) (written : Nat) (later : List Later)
    (hvalid : request.valid = true)
    (hsome : (splitMessages cfg request st.live).1 ≠ [])
    (hworker : worker.compressionIndex ≤ st.archives.length)
    (hcount : st.sessionMeta.commitCount ≤ st.archives.length)
    (hitem : .enqueue ∈ (archiveWrites request.turnBudget).take written)
    (hfits : Later.Fits cfg (ids st.live) later
      (commitAsync cfg request quiet (.crashed written) worker
        st).2) :
    RecoveredLike cfg request worker st written later reader <->
      Undisturbed cfg request st written later := by
  have hcommit := commitAsync_archives hvalid hsome hworker hcount
  unfold RecoveredLike Undisturbed
  dsimp only
  rw [hcommit] at hfits
  rw [hcommit, hcommit]
  let plan := interruptedPlan cfg request st
  let split := splitMessages cfg request st.live
  let taken := (archiveWrites request.turnBudget).take written
  have hsplit : (ids split.2).length = split.2.length := List.length_map _
  by_cases hready : .readyMarker ∈ taken
  · rw [if_pos hready]
    have hsame : commitStore quiet plan (.crashed written) st =
        commitStore quiet plan .finished st := by
      have htaken : plan.taken (.crashed written) = plan.taken .finished := by
        rw [taken_finished]
        exact ready_written hready
      rw [commitStore_of_not_marked (by intro _ heq; cases heq),
        commitStore_of_not_marked (by intro _ heq; cases heq), htaken]
    rw [hsame] at hfits ⊢
    have hrun := (uninterrupted_waiting hsome hcount).run hfits
    exact iff_true_intro
      (matches_of_ready reader hrun rfl (ready_means_all hready))
  · rw [if_neg hready]
    by_cases hroot : .root ∈ taken
    · rw [if_pos hroot]
      let start := Outlook.committed cfg request st.live st.sessionMeta.policy
      have hwaiting : Waiting (st.archives.length + 1) plan.marker plan.item start
          (commitStore quiet plan (.crashed written) st) :=
        interrupted_waiting hcount hitem hready (by rw [if_pos hroot]; rfl)
      have hlength : (commitStore quiet plan (.crashed written)
          st).archives.length =
          (commitStore quiet plan .finished st).archives.length := by
        rw [length_of_waiting hwaiting,
          length_of_waiting (uninterrupted_waiting hsome hcount)]
      rcases (uninterrupted_upToDate hvalid hsome hcount).run hwaiting hlength hfits
        with ⟨hend, hlengths⟩
      have hgone : forall id, id ∈ ids split.1 ->
          id ∈ ids split.2 ∨ id ∉ ids (start.after cfg later).live :=
        fun id hid => archived_gone rfl hfits hid
      have happlied := phase1Applied_iff (ids split.1) (ids split.2)
        (ids (start.after cfg later).live)
      rw [hsplit] at happlied
      have hmatches := matches_rewritten_iff reader (hwaiting.run hfits) hend
        hlengths rfl rfl rfl rfl hroot
      rw [happlied, and_iff_left hgone] at hmatches
      exact hmatches
    · rw [if_neg hroot]
      let start : Outlook :=
        { live := st.live, policy := st.sessionMeta.policy, excess := 0 }
      have hwaiting : Waiting (st.archives.length + 1) plan.marker plan.item start
          (commitStore quiet plan (.crashed written) st) :=
        interrupted_waiting hcount hitem hready (by rw [if_neg hroot])
      have happlied := phase1Applied_iff (ids split.1) (ids split.2)
        (ids (start.after cfg later).live)
      rw [hsplit] at happlied
      rw [matches_unwritten_iff reader (hwaiting.run hfits) rfl rfl rfl rfl hroot]
      exact not_congr happlied

def secondMessage : Message :=
  { id := 2, role := .user, messageKind := none, parts := [.text],
    estimatedTokens := 7 }

/-- A session with one message and a stored count of two messages to keep. -/
def keepingSession : Store :=
  { new with
    live := [firstMessage]
    sessionMeta :=
      { SessionMeta.new with
        messageCount := 1
        policy := { defaultPolicy with keepRecentCount := 2 } } }

/-- A full commit that leaves the stored count as it is. -/
def archiveAllOnce : CommitRequest :=
  { archiveAll with persistKeepRecentCount := false }

theorem recovered_commit_iff_added :
    RecoveredLike plainEstimate archiveAll (Worker.load keepingSession)
      keepingSession 5 [.add (Worker.load keepingSession) [secondMessage]]
      (Worker.load keepingSession) := by
  apply (recovered_commit_iff plainEstimate archiveAll _ _ keepingSession 5 _
    (by decide) (by decide +kernel) (by decide) (by decide) (by decide) ?_).mpr
  · unfold Undisturbed
    decide +kernel
  · refine ⟨?_, trivial⟩
    intro id hid
    rw [List.mem_singleton.mp hid]
    decide

/-- The recovery stores the count of the full commit over the one to keep. -/
theorem recovery_forgets_keep_count :
    ¬ forall (worker reader : Worker) (st : Store) (request : CommitRequest)
      (written : Nat) (later : List Later),
      worker.compressionIndex ≤ st.archives.length ->
        .enqueue ∈ (archiveWrites request.turnBudget).take written ->
          RecoveredLike plainEstimate request worker st written later reader := by
  intro hall
  have hlike := hall (Worker.load keepingSession) (Worker.load keepingSession)
    keepingSession archiveAllOnce 5 [] (by decide) (by decide)
  have hmeta := (hlike.2 (by decide)).2
  have hcount := congrArg (fun m : SessionMeta => m.policy.keepRecentCount) hmeta
  revert hcount
  decide +kernel

end Session
end OpenViking
