import OpenViking.Session.Retention

/-!
# The stored session

A session keeps its live messages, its metadata and its numbered archives as
files.  Workers add messages and commit under one lease, and a commit publishes
its archive in a fixed order of writes.
-/

namespace OpenViking
namespace Session

structure RetentionPolicy where
  keepRecentCount : Nat
  turnBudget : Bool
  keepRecentTurnCount : Nat
  retainedMessageTokenBudget : Nat
  minRawTailSteps : Nat
deriving DecidableEq

structure SessionMeta where
  messageCount : Nat
  commitCount : Nat
  pendingTokens : Nat
  policy : RetentionPolicy
deriving DecidableEq

def defaultPolicy : RetentionPolicy :=
  { keepRecentCount := 0
    turnBudget := false
    keepRecentTurnCount := 0
    retainedMessageTokenBudget := 0
    minRawTailSteps := 1 }

def SessionMeta.new : SessionMeta :=
  { messageCount := 0, commitCount := 0, pendingTokens := 0,
    policy := defaultPolicy }

/-- What Phase 1 records in the metadata of its archive. -/
structure Phase1 where
  ready : Bool
  taskId : Option Nat
  archivedMessageIds : Option (List Nat)
  retainedMessageIds : Option (List Nat)
  policy : RetentionPolicy
deriving DecidableEq

inductive FailureStage where
  | phase1Persist
  | queueEnqueue
  | taskTrackerCreate
  | phase1Recovery
  | queueMissing
  | cancelled
  | archiveRead
  | memoryExtraction
deriving DecidableEq

structure Archive where
  phase1 : Option Phase1
  raw : Option (List Message)
  completedMemorySteps : List Nat
  done : Bool
  failed : Option FailureStage
deriving DecidableEq

def Archive.empty : Archive :=
  { phase1 := none, raw := none, completedMemorySteps := [], done := false,
    failed := none }

def Archive.terminal (archive : Archive) : Bool :=
  archive.done || archive.failed.isSome

/-- A queue item that no consumer has acknowledged. -/
structure QueueItem where
  work : Nat
  task : Nat
  archive : Nat
deriving DecidableEq

structure Store where
  live : List Message
  sessionMeta : SessionMeta
  archives : List Archive
  queue : List QueueItem
  nextTask : Nat
deriving DecidableEq

def Store.new : Store :=
  { live := [], sessionMeta := SessionMeta.new, archives := [], queue := [],
    nextTask := 0 }

/-- Archives are numbered from one. -/
def Store.archive (st : Store) (index : Nat) : Option Archive :=
  if index = 0 then none else st.archives[index - 1]?

/-- A write into the directory of an archive, which it creates. -/
def Store.updateArchive (st : Store) (index : Nat) (f : Archive -> Archive) :
    Store :=
  { st with
    archives :=
      if index - 1 < st.archives.length then st.archives.modify (index - 1) f
      else st.archives ++ [f Archive.empty] }

def Store.hasWork (st : Store) (task : Nat) : Bool :=
  st.queue.any (fun item => item.task == task)

/-!
# Pending tokens
-/

def rebuildPendingTokens (policy : RetentionPolicy) (live : List Message) : Nat :=
  if policy.turnBudget && decide (0 < policy.keepRecentTurnCount) &&
      decide (0 < policy.retainedMessageTokenBudget) then
    let plan :=
      planRetention live policy.keepRecentTurnCount
        policy.retainedMessageTokenBudget policy.minRawTailSteps
    messageTokens (plan.archiveMessages.filter
      (fun m => !(ids plan.retainedMessages).contains m.id))
  else if policy.keepRecentCount = 0 then
    messageTokens live
  else
    messageTokens (live.take (live.length - policy.keepRecentCount))

/-- The running count of tokens that leave the window of kept messages. -/
def pushedOutTokens (keep : Nat) (live : List Message) (message : Message) : Nat :=
  if keep = 0 then message.estimatedTokens
  else
    let messages := live ++ [message]
    if keep < messages.length then
      messageTokens (messages[messages.length - (keep + 1)]?).toList
    else 0

def applyAppended (sessionMeta : SessionMeta) (live : List Message) :
    List Message -> SessionMeta
  | [] => sessionMeta
  | message :: rest =>
    let pushed :=
      if sessionMeta.policy.turnBudget then 0
      else pushedOutTokens sessionMeta.policy.keepRecentCount live message
    applyAppended
      { sessionMeta with pendingTokens := sessionMeta.pendingTokens + pushed }
      (live ++ [message]) rest

def appendedMeta (sessionMeta : SessionMeta) (live messages : List Message) :
    SessionMeta :=
  let counted := applyAppended sessionMeta live messages
  { counted with
    pendingTokens :=
      if sessionMeta.policy.turnBudget then
        rebuildPendingTokens sessionMeta.policy (live ++ messages)
      else counted.pendingTokens
    messageCount := (live ++ messages).length }

/-!
# Workers
-/

/-- The session object of one worker, which can be stale. -/
structure Worker where
  compressionIndex : Nat
  sessionMeta : SessionMeta
deriving DecidableEq

def Worker.load (st : Store) : Worker :=
  { compressionIndex := st.sessionMeta.commitCount
    sessionMeta :=
      { st.sessionMeta with
        messageCount := st.live.length
        pendingTokens := rebuildPendingTokens st.sessionMeta.policy st.live } }

/-- Metadata that cannot be read leaves the worker with what it has in memory. -/
def readMeta (unreadable : Bool) (worker : Worker) (st : Store) : SessionMeta :=
  if unreadable then worker.sessionMeta else st.sessionMeta

def appendMessages (unreadable : Bool) (messages : List Message) (worker : Worker)
    (st : Store) : Worker × Store :=
  if messages.isEmpty then (worker, st)
  else
    let sessionMeta :=
      appendedMeta (readMeta unreadable worker st) st.live messages
    ({ worker with sessionMeta := sessionMeta },
      { st with live := st.live ++ messages, sessionMeta := sessionMeta })

/-!
# Committing
-/

structure CommitRequest where
  keepRecentCount : Int
  turnBudget : Bool
  keepRecentTurnCount : Option Int
  retainedMessageTokenBudget : Option Int
  minRawTailSteps : Option Int
  persistKeepRecentCount : Bool
deriving DecidableEq

namespace CommitRequest

def effectiveKeepTurns (request : CommitRequest) : Nat :=
  (request.keepRecentTurnCount.getD 3).toNat

def effectiveTokenBudget (request : CommitRequest) : Nat :=
  (request.retainedMessageTokenBudget.getD 12000).toNat

def effectiveMinTail (request : CommitRequest) : Nat :=
  (request.minRawTailSteps.getD 1).toNat

/-- Turn fields need the turn mode, and the turn mode a positive budget. -/
def valid (request : CommitRequest) : Bool :=
  if request.turnBudget then decide (0 < request.effectiveTokenBudget)
  else
    request.keepRecentTurnCount.isNone &&
      request.retainedMessageTokenBudget.isNone && request.minRawTailSteps.isNone

def policy (request : CommitRequest) (keepRecentCount : Nat) : RetentionPolicy :=
  { keepRecentCount := keepRecentCount
    turnBudget := request.turnBudget
    keepRecentTurnCount :=
      if request.turnBudget then request.effectiveKeepTurns else 0
    retainedMessageTokenBudget :=
      if request.turnBudget then request.effectiveTokenBudget else 0
    minRawTailSteps := request.effectiveMinTail }

/-- What the marker of Phase 1 records. -/
def markerPolicy (request : CommitRequest) : RetentionPolicy :=
  request.policy request.keepRecentCount.toNat

/-- What the metadata remembers. -/
def storedPolicy (request : CommitRequest) (sessionMeta : SessionMeta) :
    RetentionPolicy :=
  request.policy
    (if request.persistKeepRecentCount then request.keepRecentCount.toNat
      else sessionMeta.policy.keepRecentCount)

end CommitRequest

/-- The estimate of a message after the large tool outputs of its turn have moved
to files. -/
structure Externalizer where
  estimate : List Message -> Message -> Nat

def Externalizer.shorten (cfg : Externalizer) (group : List Message) :
    List Message :=
  group.map (fun m => { m with estimatedTokens := cfg.estimate group m })

def Externalizer.externalize (cfg : Externalizer) (messages : List Message) :
    List Message :=
  (buildTurns messages).flatMap (fun turn => cfg.shorten turn.messages)

/-- The messages a commit archives and the messages it keeps. -/
def splitMessages (cfg : Externalizer) (request : CommitRequest)
    (messages : List Message) : List Message × List Message :=
  if request.turnBudget then
    let plan :=
      planRetention (cfg.externalize messages) request.effectiveKeepTurns
        request.effectiveTokenBudget request.effectiveMinTail
    (plan.archiveMessages, plan.retainedMessages)
  else
    let cut :=
      if request.keepRecentCount.toNat = 0 then messages.length
      else messages.length - request.keepRecentCount.toNat
    (messages.take cut, messages.drop cut)

/-- The storage calls inside a commit that fail without stopping it. -/
structure CommitFaults where
  missedArchives : List Nat
  metaUnreadable : Bool
  archiveMetaUnreadable : Bool
  phase1Unreadable : Bool
deriving DecidableEq

def CommitFaults.quiet : CommitFaults :=
  { missedArchives := [], metaUnreadable := false, archiveMetaUnreadable := false,
    phase1Unreadable := false }

/-- A check for an archive that fails counts as an absent archive. -/
def archiveExists (faults : CommitFaults) (st : Store) (index : Nat) : Bool :=
  (st.archive index).isSome && !faults.missedArchives.contains index

def scanIndex (faults : CommitFaults) (st : Store) : Nat -> Nat -> Nat
  | 0, index => index
  | fuel + 1, index =>
    if archiveExists faults st (index + 1) then
      scanIndex faults st fuel (index + 1)
    else index

def compressionIndex (faults : CommitFaults) (worker : Worker)
    (sessionMeta : SessionMeta) (st : Store) : Nat :=
  scanIndex faults st (st.archives.length + 1)
    (max worker.compressionIndex sessionMeta.commitCount)

inductive CommitWrite where
  | phase1Marker
  | archiveRaw
  | retentionPlan
  | enqueue
  | trackTask
  | root
  | abstract
  | overview
  | sessionMeta
  | readyMarker
deriving DecidableEq

structure CommitPlan where
  index : Nat
  task : Nat
  archived : List Message
  retained : List Message
  marker : Phase1
  sessionMeta : SessionMeta
  writes : List CommitWrite
deriving DecidableEq

def emptyMarker : Phase1 :=
  { ready := false, taskId := none, archivedMessageIds := none,
    retainedMessageIds := none, policy := defaultPolicy }

def archiveWrites (turnBudget : Bool) : List CommitWrite :=
  [.phase1Marker, .archiveRaw] ++
    (if turnBudget then [.retentionPlan] else []) ++
    [.enqueue, .trackTask, .root,
      .abstract, .overview, .sessionMeta,
      .readyMarker]

def CommitWrite.apply (faults : CommitFaults) (plan : CommitPlan) :
    CommitWrite -> Store -> Store
  | phase1Marker, st =>
    st.updateArchive plan.index
      (fun a => { a with phase1 := some plan.marker })
  | archiveRaw, st =>
    st.updateArchive plan.index (fun a => { a with raw := some plan.archived })
  | retentionPlan, st =>
    -- The plan is merged into metadata that an unreadable file empties.
    if faults.archiveMetaUnreadable then
      st.updateArchive plan.index (fun a => { a with phase1 := none })
    else st
  | enqueue, st =>
    { st with
      queue := st.queue ++
        [{ work := plan.task, task := plan.task, archive := plan.index }] }
  | trackTask, st => st
  | root, st => { st with live := plan.retained }
  | abstract, st => st
  | overview, st => st
  | sessionMeta, st => { st with sessionMeta := plan.sessionMeta }
  | readyMarker, st =>
    st.updateArchive plan.index (fun a =>
      let read :=
        if faults.phase1Unreadable then emptyMarker
        else a.phase1.getD emptyMarker
      { a with phase1 := some { read with ready := true } })

def applyWrites (faults : CommitFaults) (plan : CommitPlan)
    (writes : List CommitWrite) (st : Store) : Store :=
  writes.foldl (fun st write => write.apply faults plan st) st

/-- How a commit ends: by itself, by an error after a number of its writes, with
or without the failure marker, or with its process. -/
inductive Fate where
  | finished
  | raised (written : Nat) (marked : Bool)
  | crashed (written : Nat)
deriving DecidableEq

/-- What a commit that has nothing to archive writes. -/
def skipPlan (request : CommitRequest) (index : Nat) (sessionMeta : SessionMeta)
    (retained : List Message) (st : Store) : CommitPlan :=
  { index := index
    task := st.nextTask
    archived := []
    retained := retained
    marker := emptyMarker
    sessionMeta :=
      { sessionMeta with
        pendingTokens := 0
        messageCount :=
          if st.live.isEmpty then sessionMeta.messageCount else st.live.length
        policy := request.storedPolicy sessionMeta }
    writes :=
      if st.live.isEmpty then [.sessionMeta]
      else
        [.root, .abstract, .overview,
          .sessionMeta] }

def archivePlan (request : CommitRequest) (index : Nat) (sessionMeta : SessionMeta)
    (archived retained : List Message) (st : Store) : CommitPlan :=
  { index := index + 1
    task := st.nextTask
    archived := archived
    retained := retained
    marker :=
      { ready := false
        taskId := some st.nextTask
        archivedMessageIds := some (ids archived)
        retainedMessageIds := some (ids retained)
        policy := request.markerPolicy }
    sessionMeta :=
      { messageCount := retained.length
        commitCount := max sessionMeta.commitCount (index + 1)
        pendingTokens := 0
        policy := request.storedPolicy sessionMeta }
    writes := archiveWrites request.turnBudget }

/-- The writes of a commit, in their order. -/
def commitPlan (cfg : Externalizer) (request : CommitRequest)
    (faults : CommitFaults) (worker : Worker) (st : Store) : CommitPlan :=
  let sessionMeta := readMeta faults.metaUnreadable worker st
  let index := compressionIndex faults worker sessionMeta st
  let split := splitMessages cfg request st.live
  if split.1.isEmpty then skipPlan request index sessionMeta split.2 st
  else archivePlan request index sessionMeta split.1 split.2 st

def CommitPlan.archives (plan : CommitPlan) : Bool :=
  !plan.archived.isEmpty

def failureStage : Option CommitWrite -> FailureStage
  | some .enqueue => .queueEnqueue
  | some .trackTask => .taskTrackerCreate
  | _ => .phase1Persist

def Fate.written (plan : CommitPlan) : Fate -> Nat
  | Fate.finished => plan.writes.length
  | Fate.raised written _ => written
  | Fate.crashed written => written

/-- What the error handler of a commit that archives leaves. -/
def markFailed (plan : CommitPlan) (fate : Fate) (st : Store) : Store :=
  match fate with
  | .raised written true =>
    if plan.archives then
      st.updateArchive plan.index
        (fun a =>
          { a with failed := some (failureStage plan.writes[written]?) })
    else st
  | _ => st

def commitStore (faults : CommitFaults) (plan : CommitPlan) (fate : Fate)
    (st : Store) : Store :=
  markFailed plan fate
    (applyWrites faults plan (plan.writes.take (fate.written plan))
      { st with nextTask := st.nextTask + 1 })

/-- The session object after a commit.  A crash leaves the one that the next
process loads. -/
def commitWorker (faults : CommitFaults) (plan : CommitPlan) (fate : Fate)
    (worker : Worker) (st after : Store) : Worker :=
  match fate with
  | .finished =>
    { compressionIndex := plan.index, sessionMeta := plan.sessionMeta }
  | .raised written _ =>
    { compressionIndex :=
        if plan.archives then plan.index - 1 else plan.index
      sessionMeta :=
        if (plan.writes.drop written).contains .overview then
          readMeta faults.metaUnreadable worker st
        else plan.sessionMeta }
  | .crashed _ => Worker.load after

def commitAsync (cfg : Externalizer) (request : CommitRequest)
    (faults : CommitFaults) (fate : Fate) (worker : Worker) (st : Store) :
    Worker × Store :=
  if request.valid then
    let plan := commitPlan cfg request faults worker st
    let after := commitStore faults plan fate st
    (commitWorker faults plan fate worker st after, after)
  else (worker, st)

/-!
# Recovering Phase 1
-/

def markPhase1Failed (index : Nat) (st : Store) : Store :=
  st.updateArchive index
    (fun a => { a with failed := some .phase1Recovery })

/-- The live messages show that the root has been rewritten. -/
def phase1Applied (archivedIds retainedIds liveIds : List Nat) : Bool :=
  liveIds.take retainedIds.length == retainedIds &&
    archivedIds.all (fun id => retainedIds.contains id || !liveIds.contains id)

def recoveredMeta (sessionMeta : SessionMeta) (marker : Phase1) (index : Nat)
    (live : List Message) : SessionMeta :=
  { messageCount := live.length
    commitCount := max sessionMeta.commitCount index
    pendingTokens := rebuildPendingTokens marker.policy live
    policy := marker.policy }

def publishRecovered (sessionMeta : SessionMeta) (index : Nat) (marker : Phase1)
    (st : Store) : Store :=
  Store.updateArchive
    { st with sessionMeta := recoveredMeta sessionMeta marker index st.live }
    index (fun a => { a with phase1 := some { marker with ready := true } })

/-- The part of the recovery under the lease. -/
def recoverPhase1 (sessionMeta : SessionMeta) (index : Nat) (marker : Phase1)
    (st : Store) : Bool × Store :=
  match marker.taskId, marker.archivedMessageIds, marker.retainedMessageIds with
  | none, _, _ => (false, markPhase1Failed index st)
  | some task, some archivedIds, some retainedIds =>
    if !st.hasWork task then (false, markPhase1Failed index st)
    else if phase1Applied archivedIds retainedIds (ids st.live) then
      (true, publishRecovered sessionMeta index marker st)
    else (false, markPhase1Failed index st)
  | some _, _, _ => (false, markPhase1Failed index st)

def ensurePhase1Ready (unreadable : Bool) (worker : Worker) (index : Nat)
    (st : Store) : Bool × Store :=
  match (st.archive index).bind Archive.phase1 with
  | none => (true, st)
  | some marker =>
    if marker.ready then (true, st)
    else if ((st.archive index).bind Archive.failed).isSome then (false, st)
    else recoverPhase1 (readMeta unreadable worker st) index marker st

/-- The marker has work in the queue and the live messages show its rewrite. -/
def Recoverable (st : Store) (marker : Phase1) : Prop :=
  exists task archivedIds retainedIds, marker.taskId = some task ∧
    marker.archivedMessageIds = some archivedIds ∧
    marker.retainedMessageIds = some retainedIds ∧ st.hasWork task = true ∧
    phase1Applied archivedIds retainedIds (ids st.live) = true

theorem recoverPhase1_cases (sessionMeta : SessionMeta) (index : Nat)
    (marker : Phase1) (st : Store) :
    (Recoverable st marker ∧
        recoverPhase1 sessionMeta index marker st =
          (true, publishRecovered sessionMeta index marker st)) ∨
      (¬ Recoverable st marker ∧
        recoverPhase1 sessionMeta index marker st =
          (false, markPhase1Failed index st)) := by
  unfold recoverPhase1
  cases htask : marker.taskId with
  | none =>
    apply Or.inr
    refine ⟨?_, rfl⟩
    intro h
    rcases h with ⟨task, _, _, htask', _⟩
    rw [htask] at htask'
    cases htask'
  | some task =>
    cases harchived : marker.archivedMessageIds with
    | none =>
      apply Or.inr
      refine ⟨?_, rfl⟩
      intro h
      rcases h with ⟨_, archivedIds, _, _, harchived', _⟩
      rw [harchived] at harchived'
      cases harchived'
    | some archivedIds =>
      cases hretained : marker.retainedMessageIds with
      | none =>
        apply Or.inr
        refine ⟨?_, rfl⟩
        intro h
        rcases h with ⟨_, _, retainedIds, _, _, hretained', _⟩
        rw [hretained] at hretained'
        cases hretained'
      | some retainedIds =>
        have hiff : Recoverable st marker <-> st.hasWork task = true ∧
            phase1Applied archivedIds retainedIds (ids st.live) = true := by
          unfold Recoverable
          rw [htask, harchived, hretained]
          simp
        rw [hiff]
        cases hwork : st.hasWork task with
        | false => exact .inr ⟨by simp, by simp [hwork]⟩
        | true =>
          cases happlied : phase1Applied archivedIds retainedIds
              (ids st.live) with
          | false => exact .inr ⟨by simp, by simp [hwork, happlied]⟩
          | true => exact .inl ⟨by simp, by simp [hwork, happlied]⟩

/-- What a recovery finds and does. -/
theorem ensurePhase1Ready_cases (unreadable : Bool) (worker : Worker) (index : Nat)
    (st : Store) :
    (ensurePhase1Ready unreadable worker index st = (true, st) ∧
        forall a marker, st.archive index = some a -> a.phase1 = some marker ->
          marker.ready = true) ∨
      exists a marker, st.archive index = some a ∧ a.phase1 = some marker ∧
        marker.ready = false ∧
        ((a.failed.isSome = true ∧
            ensurePhase1Ready unreadable worker index st = (false, st)) ∨
          (a.failed = none ∧ ensurePhase1Ready unreadable worker index st =
            recoverPhase1 (readMeta unreadable worker st) index marker st)) := by
  unfold ensurePhase1Ready
  cases ha : st.archive index with
  | none =>
    refine .inl ⟨rfl, ?_⟩
    intro a marker hsome
    cases hsome
  | some a =>
    cases hmarker : a.phase1 with
    | none =>
      refine .inl ⟨by simp [hmarker], ?_⟩
      intro b marker hb hphase1
      cases hb
      rw [hmarker] at hphase1
      cases hphase1
    | some marker =>
      cases hready : marker.ready with
      | true =>
        refine .inl ⟨by simp [hmarker, hready], ?_⟩
        intro b marker' hb hphase1
        cases hb
        rw [hmarker] at hphase1
        cases hphase1
        exact hready
      | false =>
        refine .inr ⟨a, marker, rfl, hmarker, hready, ?_⟩
        cases hfailed : a.failed with
        | none => exact .inr ⟨rfl, by simp [hmarker, hready, hfailed]⟩
        | some stage =>
          exact .inl ⟨rfl, by simp [hmarker, hready, hfailed]⟩

end Session
end OpenViking
