import OpenViking.Session.RecoveredCommit

/-!
# The counters of a session

The session objects of one session load, add messages, commit and change its
configuration.  The stored counters are compared with the messages.
-/

namespace OpenViking
namespace Session
namespace Counters

open Function CommitFaults

/-- A session object with the total of its metadata. -/
structure Client where
  worker : Worker
  totalMessageCount : Option Nat
  loaded : Bool

def Client.new : Client :=
  { worker := { compressionIndex := 0, sessionMeta := SessionMeta.new }
    totalMessageCount := some 0
    loaded := false }

/-- The files of the session, its objects, and how many messages were ever
added. -/
structure State where
  store : Store
  messagesStored : Bool
  metaStored : Bool
  totalMessageCount : Option Nat
  clients : Nat -> Client
  added : Nat

def State.new : State :=
  { store := Store.new
    messagesStored := false
    metaStored := false
    totalMessageCount := none
    clients := fun _ => Client.new
    added := 0 }

inductive Call where
  | ensureExists
  | load
  | addMessages (messages : List Message)
  | commitAsync (request : CommitRequest)
  | updateConfig
deriving DecidableEq

namespace State

def readTotal (st : State) (client : Client) : Option Nat :=
  if st.metaStored then st.totalMessageCount else client.totalMessageCount

/-- Without metadata, the commits are those of the history. -/
def loadMeta (st : State) (worker : Worker) : SessionMeta :=
  if st.metaStored then st.store.sessionMeta
  else
    { worker.sessionMeta with
      commitCount :=
        if st.store.archives.isEmpty then worker.compressionIndex
        else st.store.archives.length }

def load (st : State) (client : Client) : Client :=
  if client.loaded then client
  else
    { worker :=
        Worker.load { st.store with sessionMeta := st.loadMeta client.worker }
      totalMessageCount := if st.metaStored then st.totalMessageCount else none
      loaded := true }

/-- The object and the files after a save of the metadata. -/
def save (st : State) (id : Nat) (saved : Worker × Store) (total : Option Nat) :
    State :=
  { st with
    store := saved.2
    metaStored := true
    totalMessageCount := total
    clients := update st.clients id
      { st.clients id with worker := saved.1, totalMessageCount := total } }

def addMessages (st : State) (id : Nat) (messages : List Message) : State :=
  if messages.isEmpty then st
  else
    State.save
      { st with messagesStored := true, added := st.added + messages.length } id
      (appendMessages (!st.metaStored) messages (st.clients id).worker st.store)
      ((st.readTotal (st.clients id)).map (· + messages.length))

/-- Without its live messages, or for a request that is not valid, a commit
raises before it writes. -/
def commitAsync (cfg : Externalizer) (st : State) (id : Nat)
    (request : CommitRequest) : State :=
  if st.messagesStored && request.valid then
    st.save id
      (Session.commitAsync cfg request
        { quiet with metaUnreadable := !st.metaStored }
        .finished (st.clients id).worker st.store)
      (st.readTotal (st.clients id))
  else st

/-- The tags and the commit policy that are set are no part of the counters. -/
def updateConfig (st : State) (id : Nat) : State :=
  let worker := (st.clients id).worker
  let read := readMeta (!st.metaStored) worker st.store
  st.save id ({ worker with sessionMeta := read },
    { st.store with sessionMeta := read }) (st.readTotal (st.clients id))

/-- The first save of a session that has no files yet. -/
def ensureExists (st : State) (id : Nat) : State :=
  if st.messagesStored || st.metaStored then st
  else State.updateConfig { st with messagesStored := true } id

def call (cfg : Externalizer) (st : State) (id : Nat) : Call -> State
  | .ensureExists => st.ensureExists id
  | .load =>
    { st with
      clients := update st.clients id (st.load (st.clients id)) }
  | .addMessages messages => st.addMessages id messages
  | .commitAsync request => st.commitAsync cfg id request
  | .updateConfig => st.updateConfig id

end State

/-!
# What the counters promise
-/

/-- A commit with a turn budget keeps messages that planning again leaves alone. -/
def RetainsAll (cfg : Externalizer) (st : State) : Prop :=
  forall id request, request.turnBudget = true -> request.valid = true ->
    st.messagesStored = true ->
      (planRetention (st.call cfg id (.commitAsync request)).store.live
        request.effectiveKeepTurns request.effectiveTokenBudget
        request.effectiveMinTail).archiveMessages = []

structure CountersAgree (cfg : Externalizer) (st : State) : Prop where
  pendingTokens : st.metaStored = true -> st.store.sessionMeta.pendingTokens =
    rebuildPendingTokens st.store.sessionMeta.policy st.store.live
  messageCount : st.metaStored = true ->
    st.store.sessionMeta.messageCount = st.store.live.length
  totalMessageCount : st.metaStored = true -> st.totalMessageCount = some st.added
  unstored : st.metaStored = false -> st.store.live = [] ∧ st.added = 0
  retained : RetainsAll cfg st

/-- An object that has loaded does not make the first save, and a commit that does
not persist its count keeps no tokens beyond the stored one. -/
def Call.Within (st : State) (id : Nat) : Call -> Prop
  | load => True
  | addMessages messages => messages = [] ∨ st.metaStored = true ∨
      (st.clients id).loaded = false
  | ensureExists | updateConfig =>
      st.metaStored = true ∨ (st.clients id).loaded = false
  | commitAsync request => request.turnBudget = true ∨
      request.persistKeepRecentCount = true ∨
      let kept :=
        st.store.live.drop (st.store.live.length - request.keepRecentCount.toNat)
      messageTokens (kept.take
        (kept.length - st.store.sessionMeta.policy.keepRecentCount)) = 0

inductive Reachable (cfg : Externalizer) : State -> Prop where
  | new : Reachable cfg State.new
  | call {st : State} (id : Nat) (c : Call) (h : Reachable cfg st)
      (hwithin : c.Within st id) : Reachable cfg (st.call cfg id c)

/-!
# The invariant of the calls
-/

/-- The object of a session that has stored nothing. -/
structure Fresh (client : Client) : Prop where
  worker : client.worker = Client.new.worker
  total : client.loaded = false -> client.totalMessageCount = some 0

/-- The outlook of a store whose counters leave nothing out. -/
def outlook (st : Store) : Outlook :=
  { live := st.live, policy := st.sessionMeta.policy, excess := 0 }

structure Counted (st : State) : Prop where
  index : forall id,
    (st.clients id).worker.compressionIndex ≤ st.store.archives.length
  unstored : st.metaStored = false -> st.store = Store.new ∧ st.added = 0 ∧
    st.messagesStored = false ∧ forall id, Fresh (st.clients id)
  stored : st.metaStored = true ->
    UpToDate (outlook st.store) st.store ∧ st.totalMessageCount = some st.added

theorem upToDate_outlook {view : Outlook} {st : Store} (h : UpToDate view st)
    (hexcess : view.excess = 0) : UpToDate (outlook st) st := by
  rcases view with ⟨live, policy, excess⟩
  cases h.live
  cases h.policy
  cases hexcess
  exact h

theorem commit_index {cfg : Externalizer} {request : CommitRequest}
    {worker : Worker} {st : Store} (hvalid : request.valid = true)
    (hworker : worker.compressionIndex ≤ st.archives.length)
    (hcount : st.sessionMeta.commitCount ≤ st.archives.length) :
    let result :=
      Session.commitAsync cfg request quiet .finished worker st
    result.1.compressionIndex ≤ result.2.archives.length := by
  intro result
  rw [(commit_finished cfg hvalid hworker hcount).length]
  have hread : readMeta quiet.metaUnreadable worker st =
      st.sessionMeta := rfl
  have hindex := compressionIndex_eq (quiet_truthful st) hworker hcount
  have hplan : result.1.compressionIndex =
      (commitPlan cfg request quiet worker st).index := by
    change (Session.commitAsync _ _ _ _ _ _).1.compressionIndex = _
    unfold Session.commitAsync
    rw [if_pos hvalid]
    rfl
  rw [hplan]
  unfold commitPlan
  dsimp only
  rw [hread, hindex]
  by_cases hempty : (splitMessages cfg request st.live).1 = []
  · rw [if_pos hempty, hempty]
    exact Nat.le_refl _
  · rw [if_neg hempty, if_neg (by simpa using hempty)]
    exact Nat.le_refl _

theorem rebuild_legacy {policy : RetentionPolicy} (hmode : policy.turnBudget = false)
    (live : List Message) :
    rebuildPendingTokens policy live =
      messageTokens (live.take (live.length - policy.keepRecentCount)) := by
  unfold rebuildPendingTokens
  rw [hmode]
  by_cases hkeep : policy.keepRecentCount = 0
  · simp [hkeep]
  · simp [hkeep]

namespace Counted

variable {cfg : Externalizer} {st : State} {id : Nat}

theorem read (h : Counted st) :
    readMeta (!st.metaStored) (st.clients id).worker st.store =
      st.store.sessionMeta := by
  cases hmeta : st.metaStored with
  | true => rfl
  | false =>
    rcases h.unstored hmeta with ⟨hstore, _, _, hfresh⟩
    rw [(hfresh id).worker, hstore]
    rfl

theorem readTotal (h : Counted st)
    (hfirst : st.metaStored = true ∨ (st.clients id).loaded = false) :
    st.readTotal (st.clients id) = some st.added := by
  unfold State.readTotal
  cases hmeta : st.metaStored with
  | true => exact (h.stored hmeta).2
  | false =>
    rcases h.unstored hmeta with ⟨_, hadded, _, hfresh⟩
    rw [hmeta] at hfirst
    rw [if_neg (by decide), hadded]
    exact (hfresh id).total (hfirst.resolve_left (by decide))

theorem upToDate (h : Counted st) : UpToDate (outlook st.store) st.store := by
  cases hmeta : st.metaStored with
  | true => exact (h.stored hmeta).1
  | false =>
    rw [(h.unstored hmeta).1]
    exact ⟨rfl, rfl, rfl, fun _ => rfl, rfl, rfl⟩

/-- A save that follows the messages keeps the invariant. -/
theorem save {saved : Worker × Store} (hup : UpToDate (outlook saved.2) saved.2)
    (hindex : saved.1.compressionIndex ≤ saved.2.archives.length)
    (hothers : forall other,
      (st.clients other).worker.compressionIndex ≤ saved.2.archives.length) :
    Counted (st.save id saved (some st.added)) := by
  refine ⟨?_, nofun, fun _ => ⟨hup, rfl⟩⟩
  apply (forall_update_iff st.clients
    (fun _ client => client.worker.compressionIndex ≤ _)).mpr
  exact ⟨hindex, fun other _ => hothers other⟩

theorem load (h : Counted st) : Counted (st.call cfg id .load) := by
  have hcount : (st.loadMeta (st.clients id).worker).commitCount ≤
      st.store.archives.length := by
    unfold State.loadMeta
    cases hmeta : st.metaStored with
    | true => exact Nat.le_of_eq h.upToDate.commitCount
    | false =>
      rw [if_neg (by decide)]
      dsimp only
      split
      · exact h.index id
      · exact Nat.le_refl _
  refine ⟨?_, ?_, h.stored⟩
  · apply (forall_update_iff st.clients
      (fun _ client => client.worker.compressionIndex ≤ _)).mpr
    refine ⟨?_, fun other _ => h.index other⟩
    unfold State.load
    split
    · exact h.index id
    · exact hcount
  · intro hmeta
    have hunstored : st.metaStored = false := hmeta
    rcases h.unstored hmeta with ⟨hstore, hadded, hmessages, hfresh⟩
    refine ⟨hstore, hadded, hmessages, ?_⟩
    apply (forall_update_iff st.clients (fun _ => Fresh)).mpr
    refine ⟨?_, fun other _ => hfresh other⟩
    unfold State.load
    split
    · exact hfresh id
    · refine ⟨?_, nofun⟩
      unfold State.loadMeta
      rw [hunstored, hstore, (hfresh id).worker]
      rfl

theorem addMessages (cfg : Externalizer) (h : Counted st) {messages : List Message}
    (hwithin : (Call.addMessages messages).Within st id) :
    Counted (st.addMessages id messages) := by
  unfold State.addMessages
  by_cases hempty : messages.isEmpty = true
  · rw [if_pos hempty]
    exact h
  rw [if_neg hempty]
  have hfirst := hwithin.resolve_left (fun hnil => hempty (by rw [hnil]; rfl))
  have hsame : appendMessages (!st.metaStored) messages (st.clients id).worker
      st.store = appendMessages false messages (st.clients id).worker st.store := by
    unfold appendMessages
    rw [h.read]
    rfl
  rw [hsame, h.readTotal hfirst]
  apply save
  · have hadd : UpToDate ((outlook st.store).next cfg
        (Later.add (st.clients id).worker messages)) _ :=
      h.upToDate.add (st.clients id).worker messages
    exact upToDate_outlook hadd rfl
  · unfold appendMessages
    rw [if_neg hempty]
    exact h.index id
  · rw [appendMessages_archives]
    exact h.index

/-- The tokens that a commit keeps beyond the count it stores. -/
theorem no_excess {request : CommitRequest} (hvalid : request.valid = true)
    (hwithin : (Call.commitAsync request).Within st id) :
    (Outlook.committed cfg request st.store.live
      st.store.sessionMeta.policy).excess = 0 := by
  cases hmode : request.turnBudget with
  | true => exact rebuild_turnBudget hvalid hmode
  | false =>
    have hpolicy : (request.nextPolicy st.store.sessionMeta.policy).turnBudget =
        false := hmode
    have hsplit : (splitMessages cfg request st.store.live).2 = st.store.live.drop
        (st.store.live.length - request.keepRecentCount.toNat) := by
      unfold splitMessages
      rw [hmode]
      by_cases hkeep : request.keepRecentCount.toNat = 0
      · simp [hkeep]
      · simp [hkeep]
    change rebuildPendingTokens (request.nextPolicy _) _ = 0
    rw [rebuild_legacy hpolicy, hsplit]
    change messageTokens (List.take (_ - (if request.persistKeepRecentCount then
      request.keepRecentCount.toNat else _)) _) = 0
    rcases hwithin with hturn | hkept
    · rw [hmode] at hturn
      cases hturn
    cases hpersist : request.persistKeepRecentCount with
    | true =>
      rw [if_pos rfl, List.length_drop]
      have hnone : st.store.live.length - (st.store.live.length -
          request.keepRecentCount.toNat) - request.keepRecentCount.toNat = 0 := by
        omega
      rw [hnone]
      rfl
    | false =>
      rw [hpersist] at hkept
      exact hkept.resolve_left (by decide)

section

variable (h : Counted st)

include h

theorem stored_of_messages (hmessages : st.messagesStored = true) :
    st.metaStored = true := by
  cases hmeta : st.metaStored with
  | true => rfl
  | false =>
    rw [(h.unstored hmeta).2.2.1] at hmessages
    cases hmessages

theorem commitAsync_eq {request : CommitRequest}
    (hmessages : st.messagesStored = true) (hvalid : request.valid = true) :
    st.commitAsync cfg id request =
      st.save id
        (Session.commitAsync cfg request quiet .finished
          (st.clients id).worker st.store) (some st.added) := by
  have hmeta := h.stored_of_messages hmessages
  unfold State.commitAsync
  rw [hmessages, hvalid, h.readTotal (Or.inl hmeta), hmeta]
  rfl

theorem commitAsync {request : CommitRequest}
    (hwithin : (Call.commitAsync request).Within st id) :
    Counted (st.commitAsync cfg id request) := by
  by_cases hgo : st.messagesStored = true ∧ request.valid = true
  · rcases hgo with ⟨hmessages, hvalid⟩
    rw [h.commitAsync_eq hmessages hvalid]
    have hworker := h.index id
    have hcount := Nat.le_of_eq h.upToDate.commitCount
    have hcommit : UpToDate ((outlook st.store).next cfg
        (Later.commit (st.clients id).worker request)) _ :=
      h.upToDate.commit hworker
    have hnext : (outlook st.store).next cfg
        (Later.commit (st.clients id).worker request) =
          Outlook.committed cfg request st.store.live
            st.store.sessionMeta.policy := if_pos hvalid
    rw [hnext] at hcommit
    apply save (upToDate_outlook hcommit (no_excess hvalid hwithin))
      (commit_index hvalid hworker hcount)
    intro other
    rw [(commit_finished cfg hvalid hworker hcount).length]
    exact Nat.le_trans (h.index other) (Nat.le_add_right _ _)
  · unfold State.commitAsync
    rw [if_neg (by simpa using hgo)]
    exact h

theorem updateConfig (hwithin : Call.updateConfig.Within st id) (stored : Bool) :
    Counted (State.updateConfig { st with messagesStored := stored } id) := by
  have htotal := h.readTotal hwithin
  unfold State.readTotal at htotal
  unfold State.updateConfig State.readTotal
  dsimp only
  rw [h.read, htotal]
  exact save h.upToDate (h.index id) h.index

theorem ensureExists (hwithin : Call.ensureExists.Within st id) :
    Counted (st.ensureExists id) := by
  unfold State.ensureExists
  split
  · exact h
  · exact h.updateConfig hwithin true

theorem call {c : Call} (hwithin : c.Within st id) :
    Counted (st.call cfg id c) := by
  cases c with
  | ensureExists => exact h.ensureExists hwithin
  | load => exact h.load
  | addMessages messages => exact h.addMessages cfg hwithin
  | commitAsync request => exact h.commitAsync hwithin
  | updateConfig => exact h.updateConfig hwithin st.messagesStored

theorem retained : RetainsAll cfg st := by
  intro id request hmode hvalid hmessages
  change (planRetention (st.commitAsync cfg id request).store.live _ _ _).archiveMessages
    = []
  rw [h.commitAsync_eq hmessages hvalid]
  change (planRetention (Session.commitAsync _ _ _ _ _ _).2.live _ _ _).archiveMessages
    = []
  rw [(commit_finished cfg hvalid (h.index id)
    (Nat.le_of_eq h.upToDate.commitCount)).live]
  unfold splitMessages
  rw [if_pos hmode]
  exact planRetention_again _ _ _ _

theorem agree : CountersAgree cfg st := by
  refine ⟨fun _ => h.upToDate.pending, fun _ => h.upToDate.messageCount,
    fun hmeta => (h.stored hmeta).2, ?_, h.retained⟩
  intro hmeta
  rcases h.unstored hmeta with ⟨hstore, hadded, _⟩
  exact ⟨by rw [hstore]; rfl, hadded⟩

end

end Counted

theorem Counted.new : Counted State.new :=
  ⟨fun _ => Nat.le_refl _, fun _ => ⟨rfl, rfl, rfl, fun _ => ⟨rfl, fun _ => rfl⟩⟩,
    nofun⟩

/-- While the first save is not made by an object that has loaded, and no commit
keeps tokens beyond the count it leaves stored, the counters agree. -/
theorem counters_agree {cfg : Externalizer} {st : State} (h : Reachable cfg st) :
    CountersAgree cfg st := by
  suffices hcounted : Counted st from hcounted.agree
  induction h with
  | new => exact Counted.new
  | call id c _ hwithin ih => exact ih.call hwithin

/-- An object that has not loaded adds two messages and commits the first. -/
theorem counters_agree_kept_one :
    let added := State.new.call plainEstimate 0
      (.addMessages [firstMessage, secondMessage])
    CountersAgree plainEstimate (added.call plainEstimate 1
      (.commitAsync { archiveAll with keepRecentCount := 1 })) :=
  counters_agree (Reachable.call 1 _
    (Reachable.call 0 _ Reachable.new (Or.inr (Or.inr rfl)))
    (Or.inr (Or.inl rfl)))

/-- A commit that keeps two messages and stores a count of none leaves their tokens
uncounted, and an object that loads before the first save counts no messages. -/
theorem counters_drift :
    let after := fun calls : List Call =>
      calls.foldl (fun st c => st.call plainEstimate 0 c) State.new
    (¬ forall calls, CountersAgree plainEstimate (after calls)) ∧
      (after [.addMessages [firstMessage, secondMessage], .commitAsync
        { archiveAllOnce with keepRecentCount := 2 }]).store.sessionMeta.pendingTokens
        = 0 ∧
      (after [.load, .addMessages [firstMessage]]).totalMessageCount =
        none := by
  refine ⟨?_, by decide +kernel, rfl⟩
  intro hall
  have htotal := (hall [.load, .addMessages [firstMessage]]).totalMessageCount rfl
  cases htotal

end Counters
end Session
end OpenViking
