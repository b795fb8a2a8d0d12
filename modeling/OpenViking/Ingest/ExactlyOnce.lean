import OpenViking.Ingest.BatchesSound

/-!
# Exactly-once ingest

When every saved batch that a poll finds tells, each message reaches its session once
and in order.
-/

namespace OpenViking
namespace Ingest

open Interleaving World List

open Paths (Str)
open Access (CharClass)

variable {config : IngestConfig} {world : World}

/-!
# A successful poll
-/

/-- The calls of a poll that succeed. -/
def Label.Successful : Label -> Prop
  | .readLog => True
  | .countBaseline => True
  | .savePending => True
  | .append _ ok => ok = true
  | .confirm => True
  | _ => False

/-- A run of successful calls. -/
def PollsTo (config : IngestConfig) (world world' : World) : Prop :=
  exists labels : List Label, (forall (label : Label), label ∈ labels -> label.Successful) ∧
    run (step config) world labels = some world'

theorem PollsTo.refl (config : IngestConfig) (world : World) :
    PollsTo config world world :=
  ⟨[], fun _ h => absurd h not_mem_nil, rfl⟩

variable {world' : World}

theorem PollsTo.head {label : Label} (hsuccess : label.Successful) {next : World}
    (hstep : step config world label = some next) (h : PollsTo config next world') :
    PollsTo config world world' := by
  obtain ⟨labels, hlabels, hrun⟩ := h
  refine ⟨label :: labels, ?_, ?_⟩
  · intro other hother
    rcases mem_cons.mp hother with heq | hrest
    · rw [heq]
      exact hsuccess
    · exact hlabels other hrest
  · rw [run, hstep]
    exact hrun

theorem PollsTo.trans {next : World} (h : PollsTo config world next)
    (hnext : PollsTo config next world') : PollsTo config world world' := by
  obtain ⟨labels, hlabels, hrun⟩ := h
  obtain ⟨rest, hrest, hrun'⟩ := hnext
  refine ⟨labels ++ rest, ?_, ?_⟩
  · intro other hother
    rcases mem_append.mp hother with hleft | hright
    · exact hlabels other hleft
    · exact hrest other hright
  · rw [run_append (step config) hrun]
    exact hrun'

theorem orderly_of_successful {label : Label} (h : label.Successful) (world : World) :
    Orderly config world label := by
  cases label with
  | poll session readOk => exact h.elim
  | idleCommit session pendingTokens => exact h.elim
  | commit fate => exact h.elim
  | _ => trivial

theorem PollsTo.sound (hpolls : PollsTo config world world')
    (h : Sound config world) : Sound config world' := by
  obtain ⟨labels, hlabels, hrun⟩ := hpolls
  exact run_inv (step config) (fun hs hok hstep => hs.step hok hstep) h
    (meets_of_forall (step config) fun label hlabel state =>
      orderly_of_successful (hlabels label hlabel) state) hrun

/-- What the requests of one append leave alone. -/
structure SameCursors (world world' : World) : Prop where
  logs : world'.logs = world.logs
  records : world'.records = world.records

variable {session : NativeId}

variable {payloads : List AddMessageRequest}

/-- The requests of an append send the whole batch. -/
theorem sends_batch {newCursor sent : Nat}
    (hphase : world.phase = .sending session payloads newCursor sent)
    (hsent : sent ≤ payloads.length) :
    exists world' : World, PollsTo config world world' ∧ SameCursors world world' ∧
      world'.phase = .sending session payloads newCursor payloads.length := by
  obtain ⟨left, hleft⟩ : exists left, left = payloads.length - sent := ⟨_, rfl⟩
  induction left using Nat.strong_induction_on generalizing world sent with
  | _ left ih =>
    rcases Nat.eq_or_lt_of_le hsent with heq | hlt
    · refine ⟨world, PollsTo.refl config world, ⟨rfl, rfl⟩, ?_⟩
      rw [hphase, heq]
    have hlength : 0 < ((payloads.drop sent).take batchLimit).length := by
      rw [length_take, length_drop]
      exact Nat.lt_min.mpr ⟨by decide, Nat.sub_pos_of_lt hlt⟩
    have hle : sent + ((payloads.drop sent).take batchLimit).length
        ≤ payloads.length := by
      rw [length_take, length_drop]
      have hmin := Nat.min_le_right batchLimit (payloads.length - sent)
      omega
    generalize hchunk : (payloads.drop sent).take batchLimit = chunk at hlength hle
    have hstep : step config world (.append chunk.length true) =
        some ((world.land config session chunk).setPhase
          (.sending session payloads newCursor (sent + chunk.length))) := by
      have hne : ¬ (chunk = [] ∨ chunk.length < chunk.length) := by
        rintro (hnil | hlt)
        · rw [hnil] at hlength
          exact Nat.lt_irrefl 0 hlength
        · exact Nat.lt_irrefl _ hlt
      unfold step
      rw [hphase]
      dsimp only
      unfold append
      dsimp only
      rw [hchunk, if_neg hne, if_pos rfl, if_pos rfl]
    have hnext : ((world.land config session chunk).setPhase
        (.sending session payloads newCursor (sent + chunk.length))).phase =
          .sending session payloads newCursor (sent + chunk.length) := rfl
    have hless : payloads.length - (sent + chunk.length) < left := by omega
    obtain ⟨world', hpolls, hsame, hend⟩ := ih _ hless hnext hle rfl
    exact ⟨world', hpolls.head (show Label.Successful (.append chunk.length true) from rfl) hstep,
      ⟨hsame.logs, hsame.records⟩, hend⟩

theorem appends_batch
    {newCursor : Nat} (hphase : world.phase = .ensuring session payloads newCursor) :
    exists world' : World, PollsTo config world world' ∧ world'.logs = world.logs ∧
      world'.phase = .reading session true ∧
      (world'.records session).cursor = newCursor := by
  have hcount : step config world .countBaseline =
      some (world.countBaseline config session payloads newCursor) := by
    unfold step
    rw [hphase]
  generalize hcounted : world.countBaseline config session payloads newCursor = counted
    at hcount
  obtain ⟨baseline, hbaseline⟩ : exists baseline,
      counted.phase = .counted session payloads newCursor baseline := by
    rw [← hcounted]
    exact ⟨_, rfl⟩
  have hsave : step config counted .savePending =
      some (counted.savePending session payloads newCursor baseline) := by
    unfold step
    rw [hbaseline]
  have hsending : (counted.savePending session payloads newCursor baseline).phase =
      .sending session payloads newCursor 0 := rfl
  obtain ⟨sent, hpolls, hsame, hsent⟩ :=
    @sends_batch config _ _ _ _ _ hsending (Nat.zero_le _)
  have hconfirm : step config sent .confirm =
      some (sent.confirm session payloads newCursor) := by
    unfold step
    rw [hsent]
    dsimp only
    rw [if_pos rfl]
  refine ⟨sent.confirm session payloads newCursor, ?_, ?_, rfl, ?_⟩
  · have hlast := (PollsTo.refl config _).head
      (show Label.Successful .confirm from trivial) hconfirm
    have hsaved := (hpolls.trans hlast).head
      (show Label.Successful .savePending from trivial) hsave
    exact hsaved.head (show Label.Successful .countBaseline from trivial) hcount
  · change sent.logs = world.logs
    rw [hsame.logs, ← hcounted]
    rfl
  · change (Function.update sent.records session _ session).cursor = newCursor
    rw [Function.update_self]
    rfl

variable {appended : Bool}

theorem reads_on (hphase : world.phase = .reading session appended)
    (hmessages : (readMessages defaultReadLimit ((world.logs session).drop
      (world.records session).cursor)).1 ≠ []) :
    exists (world' : World) (appended' : Bool), PollsTo config world world' ∧
      world'.logs = world.logs ∧ world'.phase = .reading session appended' ∧
      (world'.records session).cursor = (world.records session).cursor +
        (readMessages defaultReadLimit ((world.logs session).drop
          (world.records session).cursor)).2 := by
  have hread : step config world .readLog =
      some (world.readLog config session appended) := by
    unfold step
    rw [hphase]
  have hsuccess : Label.Successful .readLog := trivial
  unfold readLog at hread
  dsimp only at hread
  rw [if_neg hmessages] at hread
  split at hread
  · refine ⟨_, appended, (PollsTo.refl config _).head hsuccess hread, rfl, hphase, ?_⟩
    change (Function.update world.records session _ session).cursor = _
    rw [Function.update_self]
    rfl
  · obtain ⟨world', hpolls, hlogs, hreading, hcursor⟩ := @appends_batch config
      (world.setPhase (.ensuring session _ _)) _ _ _ rfl
    exact ⟨world', true, hpolls.head hsuccess hread, hlogs, hreading, hcursor⟩

theorem received_all (h : Sound config world)
    (hphase : world.phase = .reading session appended)
    (hmessages : (readMessages defaultReadLimit ((world.logs session).drop
      (world.records session).cursor)).1 = []) :
    (world.ovOf config session).received =
      payloadsOf config.cc (world.logs session) := by
  have hreading := h.phase
  rw [hphase] at hreading
  have hread := payloadsOf_read config (world.logs session) (world.records session).cursor
  have hcount := readMessages_all_of_nil (by decide) hmessages
  have hcursor := (h.sessions session).cursor_le
  rw [hmessages, hcount, take_length] at hread
  have hlog := payloadsOf_append config.cc
    ((world.logs session).take (world.records session).cursor)
    ((world.logs session).drop (world.records session).cursor)
  rw [take_append_drop, hread] at hlog
  have hnil : toAddMessageRequests config.cc [] = [] := rfl
  rw [hnil, append_nil] at hlog
  rw [h.received_of_owns hreading.1, hreading.2, Nat.add_zero, sentBy, ← hlog,
    take_length]

/-- The read loop ends, and then the session has received its whole log. -/
theorem reads_all (h : Sound config world)
    (hphase : world.phase = .reading session appended) :
    exists world' : World, PollsTo config world world' ∧ world'.logs = world.logs ∧
      (world'.ovOf config session).received =
        payloadsOf config.cc (world.logs session) := by
  obtain ⟨left, hleft⟩ : exists left,
      left = (world.logs session).length - (world.records session).cursor := ⟨_, rfl⟩
  induction left using Nat.strong_induction_on generalizing world appended with
  | _ left ih =>
    cases hmessages : (readMessages defaultReadLimit ((world.logs session).drop
        (world.records session).cursor)).1 with
    | nil => exact ⟨world, PollsTo.refl config world, rfl, received_all h hphase hmessages⟩
    | cons message messages =>
      have hsome : (readMessages defaultReadLimit ((world.logs session).drop
          (world.records session).cursor)).1 ≠ [] := by
        rw [hmessages]
        exact cons_ne_nil _ _
      obtain ⟨next, appended', hnext, hlogs, hreading, hcursor⟩ :=
        @reads_on config _ _ _ hphase hsome
      have hlines : (world.logs session).drop (world.records session).cursor ≠ [] := by
        intro hnil
        rw [hnil] at hsome
        exact hsome rfl
      have hpos := readMessages_count_pos defaultReadLimit hlines
      have hwithin := read_within (world.logs session) (h.sessions session).cursor_le
      have hless : (next.logs session).length - (next.records session).cursor < left := by
        rw [hlogs, hcursor]
        omega
      obtain ⟨world', hpolls, hlogs', hreceived⟩ :=
        ih _ hless (hnext.sound h) hreading rfl
      rw [hlogs] at hlogs' hreceived
      exact ⟨world', hnext.trans hpolls, hlogs', hreceived⟩

/-!
# The claim
-/

/-- Each message is received once and in order, the cursor and the commit mark are
right, and no OpenViking session belongs to two native sessions. -/
structure ExactlyOnce (config : IngestConfig) (world : World) : Prop where
  inOrder : forall (session : NativeId), Owns config world session ->
    (world.ovOf config session).received <+: payloadsOf config.cc (world.logs session)
  passed : forall (session : NativeId),
    payloadsOf config.cc ((world.logs session).take (world.records session).cursor) <+:
      (world.ovOf config session).received
  needsCommit : forall (session : NativeId), Owns config world session ->
    (world.ovOf config session).live ≠ [] ->
    (world.records session).needsCommit = true ∨
      (world.records session).pending ≠ none
  separate : forall (session other : NativeId), session ∈ world.appenders ->
    other ∈ world.appenders -> config.ovSession session = config.ovSession other ->
    session = other

/-- A poll whose calls succeed brings the session up to its log. -/
def CatchesUp (config : IngestConfig) (world : World) : Prop :=
  forall (session : NativeId) (readOk : Bool), world.phase = .idle ->
    Orderly config world (.poll session readOk) ->
    exists polling world' : World,
      step config world (.poll session readOk) = some polling ∧
      PollsTo config polling world' ∧ world'.logs = world.logs ∧
      (world'.ovOf config session).received =
        payloadsOf config.cc (world.logs session)

theorem Sound.exactlyOnce (h : Sound config world) : ExactlyOnce config world where
  inOrder := by
    intro session hown
    rw [h.received_of_owns hown]
    exact take_prefix _ _
  passed := by
    intro session
    have hsession := h.sessions session
    rcases Classical.em (session ∈ world.appenders) with hmem | hnot
    · rw [hsession.received hmem, payloadsOf_take]
      exact take_prefix_take_left (Nat.le_add_right _ _)
    · have hzero := (hsession.fresh hnot).1
      rw [payloadsOf_take, hzero, take_zero]
      exact nil_prefix
  needsCommit := by
    intro session hown hlive
    have hsession := h.sessions session
    cases hneeds : (world.records session).needsCommit with
    | true => exact Or.inl rfl
    | false =>
      right
      intro hpending
      have hreceived := h.received_of_owns hown
      have hcommitted := hsession.committed hneeds
      rw [hsession.settled hpending, Nat.add_zero] at hreceived
      have hlength := congrArg length hreceived
      unfold OvSession.received at hlength
      rw [length_append, length_take] at hlength
      have hmin := Nat.min_le_left
        (sentBy config.cc (world.logs session) (world.records session).cursor)
        (payloadsOf config.cc (world.logs session)).length
      have hpos := length_pos_of_ne_nil hlive
      omega
  separate := fun session other hsession hother heq =>
    h.separate other hother session hsession heq

theorem Sound.catchesUp (h : Sound config world) : CatchesUp config world := by
  intro session readOk hidle hok
  have hpoll : Ingest.step config world (.poll session readOk) =
      some ((world.reconcile config session readOk).setPhase
        (.reading session false)) := by
    unfold Ingest.step
    dsimp only
    rw [if_pos hidle]
  have hlogs : (world.reconcile config session readOk).logs = world.logs := by
    unfold reconcile
    split
    · rfl
    · rfl
    · split <;> rfl
  have hreading : ((world.reconcile config session readOk).setPhase
      (.reading session false)).phase = .reading session false := rfl
  obtain ⟨world', hpolls, hlogs', hreceived⟩ := reads_all (h.poll hok.1 hok.2) hreading
  change world'.logs = (world.reconcile config session readOk).logs at hlogs'
  change _ = payloadsOf config.cc
    ((world.reconcile config session readOk).logs session) at hreceived
  rw [hlogs] at hlogs' hreceived
  exact ⟨_, world', hpoll, hpolls, hlogs', hreceived⟩

/-- In every run whose polls find batches that tell and whose commits leave nothing
live behind, the ingest is exactly once, and the next successful poll catches up. -/
theorem ingested_exactly_once (config : IngestConfig) (logs : NativeId -> List Line)
    (labels : List Label) (world : World)
    (hmeets : Interleaving.Meets (step config) (Orderly config) (start logs)
      labels)
    (hrun : run (step config) (start logs) labels = some world) :
    ExactlyOnce config world ∧ CatchesUp config world := by
  have hsound : Sound config world :=
    run_inv (step config) (fun hs hok hstep => hs.step hok hstep)
      (sound_start config logs) hmeets hrun
  exact ⟨hsound.exactlyOnce, hsound.catchesUp⟩

/-!
# Two runs
-/

def plainClasses : CharClass :=
  { isAlpha := Char.isAlpha, isDigit := Char.isDigit, isSpace := Char.isWhitespace }

def plainConfig : IngestConfig :=
  { cc := plainClasses
    sessionIdPrefix := ['i']
    commitTokenThreshold := 100
    keepRecentCount := 0 }

def firstTalk : NativeId :=
  { harness := ['c'], nativeSessionId := ['1'] }

def greeting : NormalizedMessage :=
  { role := .user, text := ['h', 'i'], parts := [], createdAt := none, peerId := none }

/-- A log of one line for the first session. -/
def oneLine (session : NativeId) : List Line :=
  if session = firstTalk then [[greeting]] else []

instance decidableIntentTells (world : World) (session : NativeId) (readOk : Bool) :
    Decidable (IntentTells world session readOk) :=
  inferInstanceAs (Decidable (forall (batch : PendingBatch),
    batch ∈ (world.records session).pending -> _))

instance decidableOrderly (config : IngestConfig) :
    forall (world : World) (label : Label), Decidable (Orderly config world label)
  | world, .poll session readOk =>
    have : Decidable (Owns config world session) :=
      inferInstanceAs (Decidable (forall (other : NativeId),
        other ∈ world.appenders -> _))
    inferInstanceAs (Decidable (Owns config world session ∧ _))
  | world, .idleCommit session pendingTokens =>
    inferInstanceAs (Decidable (pendingTokens = 0 ->
      (world.records session).needsCommit = true ->
        (world.ovOf config session).live = []))
  | world, .commit .done =>
    match hphase : world.phase with
    | .committing session =>
      decidable_of_iff
        (config.keepRecentCount = 0 ∨ (world.ovOf config session).live = [])
        ⟨fun h other hother => by
          rw [hphase] at hother
          cases hother
          exact h, fun h => h session hphase⟩
    | .idle | .reading _ _ | .ensuring _ _ _ | .counted _ _ _ _ | .sending _ _ _ _
    | .polled _ | .marking _ =>
      isTrue fun _ hother => by
        rw [hphase] at hother
        cases hother
  | _, .grow _ _ | _, .serverCommit _ _ | _, .readLog | _, .countBaseline
  | _, .savePending | _, .append _ _ | _, .confirm | _, .threshold _
  | _, .commit .responseLost | _, .commit .failed | _, .mark | _, .raise | _, .crash =>
    isTrue trivial

/-- The process stops between the landing of a batch and its confirmation; the next poll
confirms it and appends the line written since. -/
def recoveredRun : List Label :=
  [.poll firstTalk true, .readLog, .countBaseline, .savePending, .append 1 true, .crash,
    .grow firstTalk [greeting], .poll firstTalk true, .readLog, .countBaseline,
    .savePending, .append 1 true, .confirm, .readLog, .threshold 200, .commit .done, .mark]

/-- The same stop, and the server commits the session before the next poll. -/
def committedRun : List Label :=
  [.poll firstTalk true, .readLog, .countBaseline, .savePending, .append 1 true, .crash,
    .serverCommit (plainConfig.ovSession firstTalk) 0, .poll firstTalk true, .readLog,
    .countBaseline, .savePending, .append 1 true, .confirm]

theorem ingested_exactly_once_recovered :
    exists world, run (step plainConfig) (start oneLine) recoveredRun =
        some world ∧
      ExactlyOnce plainConfig world ∧ CatchesUp plainConfig world ∧
      (world.ovOf plainConfig firstTalk).committed.length = 2 := by
  have hok : Interleaving.Meets (step plainConfig) (Orderly plainConfig)
      (start oneLine) recoveredRun := by
    decide +kernel
  have hview : (run (step plainConfig) (start oneLine)
      recoveredRun).map (fun world =>
        (world.ovOf plainConfig firstTalk).committed.length) = some 2 := by
    decide +kernel
  rcases Option.map_eq_some_iff.mp hview with ⟨world, hrun, hlength⟩
  have honce := ingested_exactly_once plainConfig oneLine recoveredRun world hok hrun
  exact ⟨world, hrun, honce.1, honce.2, hlength⟩

/-- A landed batch that the server commits before it is confirmed is sent again. -/
theorem committed_batch_sent_twice :
    exists world, run (step plainConfig) (start oneLine) committedRun =
        some world ∧
      (world.ovOf plainConfig firstTalk).received.length = 2 ∧
      (payloadsOf plainConfig.cc (world.logs firstTalk)).length = 1 ∧
      ¬ ExactlyOnce plainConfig world := by
  have hview : (run (step plainConfig) (start oneLine)
      committedRun).map (fun world =>
        ((world.ovOf plainConfig firstTalk).received.length,
          (payloadsOf plainConfig.cc (world.logs firstTalk)).length, world.appenders)) =
      some (2, 1, [firstTalk, firstTalk]) := by
    decide +kernel
  rcases Option.map_eq_some_iff.mp hview with ⟨world, hrun, heq⟩
  rcases Prod.ext_iff.mp heq with ⟨hreceived, hrest⟩
  rcases Prod.ext_iff.mp hrest with ⟨hlog, happenders⟩
  dsimp only at hreceived hlog happenders
  refine ⟨world, hrun, hreceived, hlog, ?_⟩
  intro honce
  have hown : Owns plainConfig world firstTalk := by
    intro other hother _
    rw [happenders] at hother
    simpa using hother
  have hle := (honce.inOrder firstTalk hown).length_le
  omega

end Ingest
end OpenViking
