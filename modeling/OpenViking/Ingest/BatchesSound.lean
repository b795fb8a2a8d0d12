import OpenViking.Ingest.SessionSound

/-!
# What the poll loop keeps

A failure that leaves a batch either wholly out, or wholly in and still counted, keeps
what is known of its session.
-/

namespace OpenViking
namespace Ingest

open Function World List OvSession

open Paths (Str)

/-!
# The invariant
-/

/-- No other session has been appended to the session's OpenViking session. -/
def Owns (config : IngestConfig) (world : World) (session : NativeId) : Prop :=
  forall (other : NativeId), other ∈ world.appenders ->
    config.ovSession other = config.ovSession session -> other = session

/-- What a batch that was read sends. -/
structure NewBatch (config : IngestConfig) (log : List Line) (cursor : Nat)
    (payloads : List AddMessageRequest) (newCursor : Nat) : Prop where
  within : newCursor ≤ log.length
  reach : newCursor ≤ cursor + (readMessages defaultReadLimit (log.drop cursor)).2
  sends : payloadsOf config.cc (log.take newCursor) =
    payloadsOf config.cc (log.take cursor) ++ payloads
  ne_nil : payloads ≠ []

/-- The live messages, when nobody archives any. -/
structure Baseline (session : OvSession) (shrunk : Bool) (expected : Nat) : Prop where
  le : session.live.length ≤ expected
  eq : shrunk = false -> session.live.length = expected

def PhaseSound (config : IngestConfig) (world : World) : Phase -> Prop
  | .idle => True
  | .reading session _ => Owns config world session ∧ world.landed session = 0
  | .ensuring session payloads newCursor =>
    Owns config world session ∧ world.landed session = 0 ∧
      NewBatch config (world.logs session) (world.records session).cursor payloads
        newCursor
  | .counted session payloads newCursor baseline =>
    Owns config world session ∧ world.landed session = 0 ∧
      NewBatch config (world.logs session) (world.records session).cursor payloads
        newCursor ∧
      Baseline (world.ovOf config session) (world.shrunk session) baseline
  | .sending session payloads newCursor sent =>
    Owns config world session ∧ world.landed session = sent ∧
      NewBatch config (world.logs session) (world.records session).cursor payloads
        newCursor ∧
      exists baseline,
        (world.records session).pending = some
          { cursor := newCursor, count := payloads.length, baseline := baseline } ∧
        Baseline (world.ovOf config session) (world.shrunk session) (baseline + sent)
  | .polled _ => True
  | .committing _ => True
  | .marking session => (world.ovOf config session).live = []

structure Sound (config : IngestConfig) (world : World) : Prop where
  sessions : forall (session : NativeId),
    SessionSound config (world.logs session) (world.records session)
      (world.ovOf config session) (world.landed session) (world.shrunk session)
      (session ∈ world.appenders) (Owns config world session)
  separate : forall (session : NativeId), session ∈ world.appenders ->
    Owns config world session
  unused : forall (ov : Str),
    (forall (session : NativeId), session ∈ world.appenders ->
      config.ovSession session ≠ ov) ->
    (world.sessions ov).received = []
  phase : PhaseSound config world world.phase

variable {payloads : List AddMessageRequest}

theorem NewBatch.grow {config : IngestConfig} {log : List Line} {cursor : Nat}
    {newCursor : Nat}
    (h : NewBatch config log cursor payloads newCursor) (hcursor : cursor ≤ log.length)
    (line : Line) : NewBatch config (log ++ [line]) cursor payloads newCursor where
  within := by
    rw [length_append]
    exact Nat.le_add_right_of_le h.within
  reach := by
    rw [drop_append_of_le_length hcursor]
    have hfurther := readMessages_count_append defaultReadLimit (log.drop cursor) [line]
    have hreach := h.reach
    omega
  sends := by
    rw [take_append_of_le_length h.within, take_append_of_le_length hcursor]
    exact h.sends
  ne_nil := h.ne_nil

variable {session : OvSession} {shrunk : Bool}

theorem NewBatch.batchSound {config : IngestConfig} {log : List Line} {cursor : Nat}
    {newCursor baseline : Nat}
    (h : NewBatch config log cursor payloads newCursor)
    (hbaseline : Baseline session shrunk baseline) (owns : Prop) :
    BatchSound config log cursor
      { cursor := newCursor, count := payloads.length, baseline := baseline } session 0
      shrunk owns where
  within := h.within
  reach := h.reach
  count := by
    have hlength := congrArg length h.sends
    rw [length_append] at hlength
    exact hlength.symm
  pos := length_pos_of_ne_nil h.ne_nil
  landed_le := Nat.zero_le _
  live_le := fun _ => hbaseline.le
  live_eq := fun _ hpos => absurd hpos (Nat.lt_irrefl 0)

theorem Baseline.commit {expected : Nat}
    (h : Baseline session shrunk expected) (keepRecentCount : Nat) :
    Baseline (session.commit keepRecentCount)
      (shrunk || decide (keepRecentCount < session.live.length)) expected where
  le := Nat.le_trans (session.live_commit_le keepRecentCount) h.le
  eq := by
    intro hshrunk
    rcases Bool.or_eq_false_iff.mp hshrunk with ⟨hbefore, hall⟩
    rw [commit_of_le (Nat.not_lt.mp (of_decide_eq_false hall))]
    exact h.eq hbefore

theorem Baseline.append {expected : Nat}
    (h : Baseline session shrunk expected) (chunk : List AddMessageRequest) :
    Baseline (session.append chunk) shrunk (expected + chunk.length) := by
  have hlength : (session.append chunk).live.length =
      session.live.length + chunk.length := by
    unfold OvSession.append
    dsimp only
    rw [length_append]
  constructor
  · rw [hlength]
    exact Nat.add_le_add_right h.le _
  · intro hshrunk
    rw [hlength, h.eq hshrunk]

/-!
# What a step keeps
-/

theorem sound_start (config : IngestConfig) (logs : NativeId -> List Line) :
    Sound config (start logs) where
  sessions := fun _ =>
    { cursor_le := Nat.zero_le _
      fresh := fun _ => ⟨rfl, rfl⟩
      received := nofun
      settled := fun _ => rfl
      committed := fun _ => Nat.zero_le _
      batch := nofun }
  separate := nofun
  unused := fun _ _ => rfl
  phase := trivial

section Steps

variable {config : IngestConfig} {world : World}

variable {session : NativeId}

theorem Sound.received_of_owns (h : Sound config world)
    (hown : Owns config world session) :
    (world.ovOf config session).received =
      (payloadsOf config.cc (world.logs session)).take
        (sentBy config.cc (world.logs session) (world.records session).cursor
          + world.landed session) := by
  rcases Classical.em (session ∈ world.appenders) with hmem | hnot
  · exact (h.sessions session).received hmem
  · have hfresh := (h.sessions session).fresh hnot
    have hunused : (world.ovOf config session).received = [] := by
      apply h.unused
      intro other hother heq
      exact hnot (hown other hother heq ▸ hother)
    rw [hunused, hfresh.1, hfresh.2]
    rfl

variable {phase : Phase}

theorem sound_setPhase (hsessions : forall (session : NativeId),
      SessionSound config (world.logs session) (world.records session)
        (world.ovOf config session) (world.landed session) (world.shrunk session)
        (session ∈ world.appenders) (Owns config world session))
    (hseparate : forall (session : NativeId), session ∈ world.appenders ->
      Owns config world session)
    (hunused : forall (ov : Str),
      (forall (session : NativeId), session ∈ world.appenders ->
        config.ovSession session ≠ ov) ->
      (world.sessions ov).received = [])
    (hphase : PhaseSound config world phase) :
    Sound config (world.setPhase phase) where
  sessions := hsessions
  separate := hseparate
  unused := hunused
  phase := by
    cases phase <;> exact hphase

theorem Sound.setPhase (h : Sound config world)
    (hphase : PhaseSound config world phase) : Sound config (world.setPhase phase) :=
  sound_setPhase h.sessions h.separate h.unused hphase

theorem Sound.phase_eq (h : Sound config world)
    (hphase : world.phase = phase) : PhaseSound config world phase :=
  hphase ▸ h.phase

theorem Sound.grow (h : Sound config world) (session : NativeId) (line : Line) :
    Sound config
      { world with
        logs := update world.logs session (world.logs session ++ [line]) } := by
  have hlogs : forall (other : NativeId),
      update world.logs session (world.logs session ++ [line]) other =
        world.logs other ∨
      update world.logs session (world.logs session ++ [line]) other =
        world.logs other ++ [line] := by
    intro other
    rcases eq_or_ne other session with heq | hne
    · subst heq
      exact .inr (update_self _ _ _)
    · exact .inl (update_of_ne hne _ _)
  have hbatch : forall (other : NativeId) (payloads : List AddMessageRequest)
      (newCursor : Nat),
      NewBatch config (world.logs other) (world.records other).cursor payloads
        newCursor ->
      NewBatch config
        (update world.logs session (world.logs session ++ [line]) other)
        (world.records other).cursor payloads newCursor := by
    intro other payloads newCursor hnew
    rcases hlogs other with heq | heq
    · rw [heq]
      exact hnew
    · rw [heq]
      exact hnew.grow (h.sessions other).cursor_le line
  refine ⟨?_, h.separate, h.unused, ?_⟩
  · intro other
    change SessionSound config
      (update world.logs session (world.logs session ++ [line]) other) _ _ _ _ _ _
    rcases hlogs other with heq | heq
    · rw [heq]
      exact h.sessions other
    · rw [heq]
      exact (h.sessions other).grow line
  · have hphase := h.phase
    change PhaseSound config _ world.phase
    generalize world.phase = phase at hphase
    cases phase with
    | ensuring other payloads newCursor =>
      exact ⟨hphase.1, hphase.2.1, hbatch other payloads newCursor hphase.2.2⟩
    | counted other payloads newCursor baseline =>
      exact ⟨hphase.1, hphase.2.1, hbatch other payloads newCursor hphase.2.2.1,
        hphase.2.2.2⟩
    | sending other payloads newCursor sent =>
      exact ⟨hphase.1, hphase.2.1, hbatch other payloads newCursor hphase.2.2.1,
        hphase.2.2.2⟩
    | _ => exact hphase

theorem commitOv_cases (config : IngestConfig) (world : World) (ov : Str)
    (keepRecentCount : Nat) (session : NativeId) :
    ((world.commitOv config ov keepRecentCount).ovOf config session =
        world.ovOf config session ∧
      (world.commitOv config ov keepRecentCount).shrunk session =
        world.shrunk session) ∨
    ((world.commitOv config ov keepRecentCount).ovOf config session =
        (world.ovOf config session).commit keepRecentCount ∧
      (world.commitOv config ov keepRecentCount).shrunk session =
        (world.shrunk session ||
          decide (keepRecentCount < (world.ovOf config session).live.length))) := by
  unfold commitOv ovOf
  dsimp only
  rcases eq_or_ne (config.ovSession session) ov with heq | hne
  · right
    subst heq
    refine ⟨update_self _ _ _, ?_⟩
    simp
  · left
    refine ⟨update_of_ne hne _ _, ?_⟩
    simp [hne]

theorem PhaseSound.commitOv (h : PhaseSound config world phase)
    (ov : Str) (keepRecentCount : Nat) :
    PhaseSound config (world.commitOv config ov keepRecentCount) phase := by
  have hbaseline : forall (session : NativeId) (expected : Nat),
      Baseline (world.ovOf config session) (world.shrunk session) expected ->
      Baseline ((world.commitOv config ov keepRecentCount).ovOf config session)
        ((world.commitOv config ov keepRecentCount).shrunk session) expected := by
    intro session expected hold
    rcases commitOv_cases config world ov keepRecentCount session with
      ⟨hov, hshrunk⟩ | ⟨hov, hshrunk⟩
    · rw [hov, hshrunk]
      exact hold
    · rw [hov, hshrunk]
      exact hold.commit keepRecentCount
  cases phase with
  | counted session payloads newCursor baseline =>
    exact ⟨h.1, h.2.1, h.2.2.1, hbaseline session baseline h.2.2.2⟩
  | sending session payloads newCursor sent =>
    obtain ⟨hown, hlanded, hnew, baseline, hpending, hold⟩ := h
    exact ⟨hown, hlanded, hnew, baseline, hpending,
      hbaseline session (baseline + sent) hold⟩
  | marking session =>
    have hlive : (world.ovOf config session).live = [] := h
    change ((world.commitOv config ov keepRecentCount).ovOf config session).live = []
    rcases commitOv_cases config world ov keepRecentCount session with
      ⟨hov, _⟩ | ⟨hov, _⟩
    · rw [hov]
      exact hlive
    · rw [hov]
      have hle := (world.ovOf config session).live_commit_le keepRecentCount
      rw [hlive] at hle
      exact eq_nil_of_length_eq_zero (Nat.le_zero.mp hle)
  | _ => exact h

section

variable (h : Sound config world)

include h

theorem Sound.commitOv (ov : Str) (keepRecentCount : Nat) :
    Sound config (world.commitOv config ov keepRecentCount) where
  sessions := by
    intro session
    change SessionSound config (world.logs session) (world.records session)
      ((world.commitOv config ov keepRecentCount).ovOf config session)
      (world.landed session)
      ((world.commitOv config ov keepRecentCount).shrunk session)
      (session ∈ world.appenders) (Owns config world session)
    rcases commitOv_cases config world ov keepRecentCount session with
      ⟨hov, hshrunk⟩ | ⟨hov, hshrunk⟩
    · rw [hov, hshrunk]
      exact h.sessions session
    · rw [hov, hshrunk]
      exact (h.sessions session).commit keepRecentCount
  separate := h.separate
  unused := by
    intro other hother
    change (update world.sessions ov _ other).received = []
    rcases eq_or_ne other ov with heq | hne
    · subst heq
      rw [update_self, received_commit]
      exact h.unused other hother
    · rw [update_of_ne hne]
      exact h.unused other hother
  phase := h.phase.commitOv ov keepRecentCount

/-- A step that touches the state of one native session only. -/
theorem Sound.update (world' : World) (session : NativeId)
    (hlogs : world'.logs = world.logs) (hsessions : world'.sessions = world.sessions)
    (happenders : world'.appenders = world.appenders)
    (hother : forall (other : NativeId), other ≠ session ->
      world'.records other = world.records other ∧
        world'.landed other = world.landed other ∧
        world'.shrunk other = world.shrunk other)
    (hself : SessionSound config (world.logs session) (world'.records session)
      (world.ovOf config session) (world'.landed session) (world'.shrunk session)
      (session ∈ world.appenders) (Owns config world session))
    (hphase : PhaseSound config world' world'.phase) : Sound config world' where
  sessions := by
    intro other
    have howns : Owns config world' other = Owns config world other := by
      unfold Owns
      rw [happenders]
    have hov : world'.ovOf config other = world.ovOf config other := by
      unfold ovOf
      rw [hsessions]
    rw [hlogs, howns, hov, happenders]
    rcases eq_or_ne other session with heq | hne
    · subst heq
      exact hself
    · rcases hother other hne with ⟨hrecord, hlanded, hshrunk⟩
      rw [hrecord, hlanded, hshrunk]
      exact h.sessions other
  separate := by
    intro other hmem
    unfold Owns
    rw [happenders] at hmem ⊢
    exact h.separate other hmem
  unused := by
    intro ov hunused
    rw [happenders] at hunused
    rw [hsessions]
    exact h.unused ov hunused
  phase := hphase

theorem Sound.settle (session : NativeId) {record : CursorRecord}
    (hself : SessionSound config (world.logs session) record
      (world.ovOf config session) 0 (world.shrunk session) (session ∈ world.appenders)
      (Owns config world session)) (phase : Phase)
    (hphase : PhaseSound config ((world.settle session record).setPhase phase) phase) :
    Sound config ((world.settle session record).setPhase phase) := by
  apply h.update ((world.settle session record).setPhase phase) session rfl rfl rfl
  · intro other hne
    exact ⟨Function.update_of_ne hne _ _, Function.update_of_ne hne _ _, rfl⟩
  · change SessionSound config _ (Function.update world.records session record session) _
      (Function.update world.landed session 0 session) _ _ _
    rw [Function.update_self, Function.update_self]
    exact hself
  · exact hphase

theorem Sound.setRecord (session : NativeId) {record : CursorRecord}
    (hself : SessionSound config (world.logs session) record
      (world.ovOf config session) (world.landed session) (world.shrunk session)
      (session ∈ world.appenders) (Owns config world session)) (phase : Phase)
    (hphase : PhaseSound config ((world.setRecord session record).setPhase phase)
      phase) :
    Sound config ((world.setRecord session record).setPhase phase) := by
  apply h.update ((world.setRecord session record).setPhase phase) session rfl rfl rfl
  · intro other hne
    exact ⟨Function.update_of_ne hne _ _, rfl, rfl⟩
  · change SessionSound config _ (Function.update world.records session record session) _
      _ _ _ _
    rw [Function.update_self]
    exact hself
  · exact hphase

end

/-!
# The condition
-/

/-- What is known of a saved batch decides right: nothing of it has landed, or all of
it has, is still live and can be counted. -/
def IntentTells (world : World) (session : NativeId) (readOk : Bool) : Prop :=
  forall (batch : PendingBatch), (world.records session).pending = some batch ->
    world.landed session = 0 ∨
      (readOk = true ∧ world.landed session = batch.count ∧
        world.shrunk session = false)

def Orderly (config : IngestConfig) (world : World) : Label -> Prop
  | .poll session readOk =>
    Owns config world session ∧ IntentTells world session readOk
  | .idleCommit session pendingTokens =>
    pendingTokens = 0 -> (world.records session).needsCommit = true ->
      (world.ovOf config session).live = []
  | .commit .done =>
    forall (session : NativeId), world.phase = .committing session ->
      config.keepRecentCount = 0 ∨ (world.ovOf config session).live = []
  | _ => True

/-- A saved batch that tells is confirmed or dropped, rightly. -/
theorem Sound.poll (h : Sound config world) {readOk : Bool}
    (hown : Owns config world session) (htells : IntentTells world session readOk) :
    Sound config
      ((world.reconcile config session readOk).setPhase (.reading session false)) := by
  unfold reconcile
  have hsession := h.sessions session
  cases hpending : (world.records session).pending with
  | none => exact h.setPhase ⟨hown, hsession.settled hpending⟩
  | some batch =>
    have hbatch := hsession.batch batch hpending
    have hpos := hbatch.pos
    have hle := hbatch.live_le hown
    cases readOk with
    | false =>
      have hlanded : world.landed session = 0 := by
        rcases htells batch hpending with hzero | ⟨hread, _⟩
        · exact hzero
        · cases hread
      exact h.setPhase ⟨hown, hlanded⟩
    | true =>
      dsimp only
      have hzero : (Function.update world.landed session 0) session = 0 :=
        Function.update_self _ _ _
      split
      · rename_i hcount
        have hlanded : world.landed session = batch.count := by
          rcases htells batch hpending with hzero | ⟨_, hall, _⟩
          · omega
          · exact hall
        exact h.settle session (hsession.confirmAppend hpending hlanded)
          (.reading session false) ⟨hown, hzero⟩
      · rename_i hcount
        have hlanded : world.landed session = 0 := by
          rcases htells batch hpending with hzero | ⟨_, hall, hshrunk⟩
          · exact hzero
          · have heq := hbatch.live_eq hown (by omega) hshrunk
            omega
        exact h.settle session (hsession.clearPending hlanded)
          (.reading session false) ⟨hown, hzero⟩

/-!
# The read loop
-/

theorem payloadsOf_read (config : IngestConfig) (log : List Line) (cursor : Nat) :
    payloadsOf config.cc ((log.drop cursor).take
        (readMessages defaultReadLimit (log.drop cursor)).2) =
      toAddMessageRequests config.cc
        (readMessages defaultReadLimit (log.drop cursor)).1 := by
  rw [readMessages_messages]
  rfl

theorem read_within (log : List Line) {cursor : Nat} (h : cursor ≤ log.length) :
    cursor + (readMessages defaultReadLimit (log.drop cursor)).2 ≤ log.length := by
  have hle := readMessages_count_le defaultReadLimit (log.drop cursor)
  rw [length_drop] at hle
  omega

theorem Sound.advanceCursor (h : Sound config world) (session : NativeId)
    (hnil : toAddMessageRequests config.cc
      (readMessages defaultReadLimit
        ((world.logs session).drop (world.records session).cursor)).1 = []) :
    SessionSound config (world.logs session)
      ((world.records session).advanceCursor ((world.records session).cursor +
        (readMessages defaultReadLimit
          ((world.logs session).drop (world.records session).cursor)).2))
      (world.ovOf config session) (world.landed session) (world.shrunk session)
      (session ∈ world.appenders) (Owns config world session) := by
  have hsession := h.sessions session
  have hread := payloadsOf_read config (world.logs session) (world.records session).cursor
  rw [hnil] at hread
  have hpending : (world.records session).pending = none := by
    cases hsaved : (world.records session).pending with
    | none => rfl
    | some batch => exact absurd hread (hsession.batch batch hsaved).payloads_ne_nil
  exact hsession.advanceCursor (read_within _ hsession.cursor_le) hread hpending

theorem Sound.endPoll (world' : World)
    (h : Sound config (world'.setPhase .idle)) (appended : Bool) :
    Sound config (world'.endPoll session appended) := by
  unfold World.endPoll
  split
  · exact { h with phase := trivial }
  · exact h

theorem Sound.readLog (h : Sound config world) {appended : Bool}
    (hphase : world.phase = .reading session appended) :
    Sound config (world.readLog config session appended) := by
  have hreading := h.phase_eq hphase
  have hsession := h.sessions session
  have hread := payloadsOf_read config (world.logs session) (world.records session).cursor
  unfold World.readLog
  dsimp only
  split
  · rename_i hmessages
    have hnil : toAddMessageRequests config.cc (readMessages defaultReadLimit
        ((world.logs session).drop (world.records session).cursor)).1 = [] := by
      rw [hmessages]
      rfl
    exact Sound.endPoll _
      (h.setRecord session (h.advanceCursor session hnil) .idle trivial) appended
  · split
    · rename_i hnil
      have hadvanced := h.setRecord session (h.advanceCursor session hnil)
        (.reading session appended) hreading
      rw [← hphase] at hadvanced
      exact hadvanced
    · rename_i hne
      apply h.setPhase
      refine ⟨hreading.1, hreading.2, ?_, Nat.le_refl _, ?_, hne⟩
      · exact read_within _ hsession.cursor_le
      · rw [payloadsOf_between, hread]

variable {newCursor : Nat}

theorem Sound.countBaseline (h : Sound config world)
    (hphase : world.phase = .ensuring session payloads newCursor) :
    Sound config (world.countBaseline config session payloads newCursor) := by
  have hensuring := h.phase_eq hphase
  apply h.update (world.countBaseline config session payloads newCursor) session
    rfl rfl rfl
  · intro other hne
    exact ⟨rfl, rfl, update_of_ne hne _ _⟩
  · exact (h.sessions session).setShrunk hensuring.2.1 _
  · exact ⟨hensuring.1, hensuring.2.1, hensuring.2.2, Nat.le_refl _, fun _ => rfl⟩

theorem Sound.savePending (h : Sound config world) {baseline : Nat}
    (hphase : world.phase = .counted session payloads newCursor baseline) :
    Sound config (world.savePending session payloads newCursor baseline) := by
  obtain ⟨hown, hlanded, hnew, hbaseline⟩ := h.phase_eq hphase
  have hbatch := hnew.batchSound hbaseline (Owns config world session)
  rw [← hlanded] at hbatch
  apply h.setRecord session ((h.sessions session).setPending hlanded hbatch)
    (.sending session payloads newCursor 0)
  refine ⟨hown, hlanded, ?_, baseline, ?_, hbaseline⟩
  · change NewBatch config _ (Function.update world.records session _ session).cursor _ _
    rw [Function.update_self]
    exact hnew
  · change (Function.update world.records session _ session).pending = _
    rw [Function.update_self]
    rfl

theorem land_nil (config : IngestConfig) (world : World) (session : NativeId) :
    world.land config session [] = world := by
  have hsame : (world.ovOf config session).append [] =
      world.sessions (config.ovSession session) := by
    unfold OvSession.append
    rw [append_nil]
    rfl
  unfold land
  rw [hsame, update_eq_self, length_nil, Nat.add_zero,
    update_eq_self, if_pos rfl]

theorem land_ovOf_self (config : IngestConfig) (world : World) (session : NativeId)
    (chunk : List AddMessageRequest) :
    (world.land config session chunk).ovOf config session =
      (world.ovOf config session).append chunk := by
  unfold land ovOf
  dsimp only
  rw [update_self]

theorem land_sessions_of_ne {ov : Str}
    (h : ov ≠ config.ovSession session) (chunk : List AddMessageRequest) :
    (world.land config session chunk).sessions ov = world.sessions ov := by
  unfold land
  dsimp only
  rw [update_of_ne h]

theorem land_landed_self (config : IngestConfig) (world : World) (session : NativeId)
    (chunk : List AddMessageRequest) :
    (world.land config session chunk).landed session =
      world.landed session + chunk.length := by
  unfold land
  dsimp only
  rw [update_self]

theorem land_landed_of_ne {session other : NativeId} (h : other ≠ session)
    (chunk : List AddMessageRequest) :
    (world.land config session chunk).landed other = world.landed other := by
  unfold land
  dsimp only
  rw [update_of_ne h]

variable {chunk : List AddMessageRequest}

theorem land_appenders (h : chunk ≠ [])
    (session : NativeId) :
    (world.land config session chunk).appenders = session :: world.appenders := by
  unfold land
  dsimp only
  rw [if_neg h]

/-- To the other sessions a landing is nothing, or a change of a session that is not
theirs. -/
theorem Sound.land_other (h : Sound config world) {session other : NativeId}
    (hchunk : chunk ≠ [])
    (hown : Owns config world session) (hne : other ≠ session) :
    SessionSound config (world.logs other) (world.records other)
      ((world.land config session chunk).ovOf config other) (world.landed other)
      (world.shrunk other) (other ∈ (world.land config session chunk).appenders)
      (Owns config (world.land config session chunk) other) := by
  have happenders : (world.land config session chunk).appenders =
      session :: world.appenders := land_appenders hchunk session
  have hmem : (other ∈ (world.land config session chunk).appenders) =
      (other ∈ world.appenders) := by
    rw [happenders, mem_cons]
    exact propext (or_iff_right hne)
  rw [hmem]
  rcases eq_or_ne (config.ovSession other) (config.ovSession session) with heq | hdiff
  · have hnot : other ∉ world.appenders := fun happ => hne (hown other happ heq)
    have howns : Owns config (world.land config session chunk) other = False := by
      apply eq_false
      intro hcontra
      have hself := hcontra session (by
        rw [happenders]
        exact mem_cons_self) heq.symm
      exact hne hself.symm
    rw [howns]
    exact (h.sessions other).of_fresh hnot _ _
  · have hov : (world.land config session chunk).ovOf config other =
        world.ovOf config other := land_sessions_of_ne hdiff chunk
    have howns : Owns config (world.land config session chunk) other =
        Owns config world other := by
      apply propext
      unfold Owns
      rw [happenders]
      constructor
      · intro hall third hthird
        exact hall third (mem_cons_of_mem session hthird)
      · intro hall third hthird heq
        rcases mem_cons.mp hthird with hself | hold
        · rw [hself] at heq
          exact absurd heq.symm hdiff
        · exact hall third hold heq
    rw [hov, howns]
    exact h.sessions other

theorem Owns.land (hown : Owns config world session) (hchunk : chunk ≠ []) :
    Owns config (world.land config session chunk) session := by
  intro other hother heq
  rw [land_appenders hchunk] at hother
  rcases mem_cons.mp hother with hself | hold
  · exact hself
  · exact hown other hold heq

section

variable (h : Sound config world)

include h

theorem Sound.land_separate (hown : Owns config world session)
    (hchunk : chunk ≠ []) (other : NativeId)
    (hother : other ∈ (world.land config session chunk).appenders) :
    Owns config (world.land config session chunk) other := by
  rw [land_appenders hchunk] at hother
  rcases mem_cons.mp hother with hself | hold
  · rw [hself]
    exact hown.land hchunk
  · intro third hthird heq
    rw [land_appenders hchunk] at hthird
    rcases mem_cons.mp hthird with hself | hthird'
    · rw [hself] at heq ⊢
      exact (hown other hold heq.symm).symm
    · exact h.separate other hold third hthird' heq

theorem Sound.land_unused (session : NativeId) (hchunk : chunk ≠ []) (ov : Str)
    (hunused : forall (other : NativeId),
      other ∈ (world.land config session chunk).appenders ->
      config.ovSession other ≠ ov) :
    ((world.land config session chunk).sessions ov).received = [] := by
  rw [land_appenders hchunk] at hunused
  have hsession := hunused session mem_cons_self
  rw [land_sessions_of_ne (Ne.symm hsession)]
  apply h.unused
  intro other hother
  exact hunused other (mem_cons_of_mem session hother)

section

variable {sent : Nat} (hphase : world.phase = .sending session payloads newCursor sent)

include hphase

/-- Messages of the saved batch land in the session's own OpenViking session. -/
theorem Sound.land (hchunk : chunk <+: payloads.drop sent) :
    Sound config ((world.land config session chunk).setPhase
      (.sending session payloads newCursor (sent + chunk.length))) := by
  obtain ⟨hown, hlanded, hnew, baseline, hpending, hbaseline⟩ := h.phase_eq hphase
  rcases eq_or_ne chunk [] with hnil | hne
  · subst hnil
    rw [land_nil]
    exact h.setPhase ⟨hown, hlanded, hnew, baseline, hpending, hbaseline⟩
  apply sound_setPhase _ (h.land_separate hown hne) (h.land_unused session hne)
  · refine ⟨hown.land hne, ?_, hnew, baseline, hpending, ?_⟩
    · rw [land_landed_self, hlanded]
    · rw [land_ovOf_self, ← Nat.add_assoc]
      exact hbaseline.append chunk
  intro other
  change SessionSound config (world.logs other) (world.records other) _ _
    (world.shrunk other) _ _
  rcases eq_or_ne other session with heq | hother
  · subst heq
    have hmem : (other ∈ (world.land config other chunk).appenders) = True := by
      rw [land_appenders hne]
      exact eq_true mem_cons_self
    rw [land_ovOf_self, land_landed_self, hmem]
    rw [← hlanded] at hchunk hbaseline
    exact (h.sessions other).land hpending hnew.sends hchunk
      (h.received_of_owns hown) hbaseline.le hbaseline.eq _
  · rw [land_landed_of_ne hother]
    exact h.land_other hne hown hother

theorem Sound.append {landed : Nat} {ok : Bool} {world' : World}
    (happend : world.append config session payloads newCursor sent landed ok =
      some world') : Sound config world' := by
  have hchunk := take_prefix batchLimit (payloads.drop sent)
  unfold World.append at happend
  dsimp only at happend
  split at happend
  · cases happend
  split at happend
  · split at happend
    · cases happend
      exact h.land hphase hchunk
    · cases happend
  · cases happend
    have hpart := List.IsPrefix.trans (List.take_prefix landed _) hchunk
    exact (h.land hphase hpart).setPhase trivial

theorem Sound.confirm (hall : sent = payloads.length) :
    Sound config (world.confirm session payloads newCursor) := by
  obtain ⟨hown, hlanded, _, baseline, hpending, _⟩ := h.phase_eq hphase
  have hconfirmed := (h.sessions session).confirmAppend hpending (hlanded.trans hall)
  exact h.settle session hconfirmed (.reading session true)
    ⟨hown, update_self _ _ _⟩

end

end

/-!
# Commits
-/

section

variable (h : Sound config world)

include h

theorem Sound.forgetDirty (session : NativeId) :
    Sound config (world.forgetDirty session) :=
  { h with
    phase := by
      have hphase := h.phase
      change PhaseSound config _ world.phase
      generalize world.phase = phase at hphase
      cases phase <;> exact hphase }

theorem Sound.commit {fate : CommitFate}
    (hphase : world.phase = .committing session)
    (hok : Orderly config world (.commit fate)) :
    Sound config (world.commit config session fate) := by
  have hcommitted := h.commitOv (config.ovSession session) config.keepRecentCount
  cases fate with
  | failed => exact h.setPhase trivial
  | responseLost => exact hcommitted.setPhase trivial
  | done =>
    apply hcommitted.setPhase
    change (Function.update world.sessions (config.ovSession session) _
      (config.ovSession session)).live = []
    rw [Function.update_self]
    rcases hok session hphase with hzero | hlive
    · rw [hzero]
      exact live_commit_zero _
    · change (world.sessions (config.ovSession session)).live = [] at hlive
      rw [commit_of_le (by rw [hlive]; exact Nat.zero_le _)]
      exact hlive

theorem Sound.mark
    (hphase : world.phase = .marking session) : Sound config (world.mark session) := by
  have hlive := h.phase_eq hphase
  have hmarked := h.setRecord session ((h.sessions session).markCommitted hlive) .idle
    trivial
  exact hmarked.forgetDirty session

theorem Sound.commitIfNeeded {pendingTokens : Nat}
    (hok : Orderly config world (.idleCommit session pendingTokens)) :
    Sound config (world.commitIfNeeded session pendingTokens) := by
  unfold World.commitIfNeeded
  split
  · rename_i hzero
    split
    · rename_i hneeds
      exact h.setPhase (hok hzero hneeds)
    · exact h.forgetDirty session
  · exact h.setPhase trivial

end

theorem Sound.step {label : Label} {world' : World} (h : Sound config world)
    (hok : Orderly config world label)
    (hstep : Ingest.step config world label = some world') : Sound config world' := by
  unfold Ingest.step at hstep
  cases label with
  | grow session line =>
    cases hstep
    exact h.grow session line
  | serverCommit ov keepRecentCount =>
    cases hstep
    exact h.commitOv ov keepRecentCount
  | poll session readOk =>
    dsimp only at hstep
    split at hstep
    · cases hstep
      exact h.poll hok.1 hok.2
    · cases hstep
  | readLog =>
    dsimp only at hstep
    split at hstep
    · rename_i hphase
      cases hstep
      exact h.readLog hphase
    · cases hstep
  | countBaseline =>
    dsimp only at hstep
    split at hstep
    · rename_i hphase
      cases hstep
      exact h.countBaseline hphase
    · cases hstep
  | savePending =>
    dsimp only at hstep
    split at hstep
    · rename_i hphase
      cases hstep
      exact h.savePending hphase
    · cases hstep
  | append landed ok =>
    dsimp only at hstep
    split at hstep
    · rename_i hphase
      exact h.append hphase hstep
    · cases hstep
  | confirm =>
    dsimp only at hstep
    split at hstep
    · rename_i hphase
      split at hstep
      · rename_i hall
        cases hstep
        exact h.confirm hphase hall
      · cases hstep
    · cases hstep
  | threshold pendingTokens =>
    dsimp only at hstep
    split at hstep
    · split at hstep
      · cases hstep
        exact h.setPhase trivial
      · cases hstep
        exact h.setPhase trivial
    · cases hstep
  | idleCommit session pendingTokens =>
    dsimp only at hstep
    split at hstep
    · cases hstep
      exact h.commitIfNeeded hok
    · cases hstep
  | commit fate =>
    dsimp only at hstep
    split at hstep
    · rename_i hphase
      cases hstep
      exact h.commit hphase hok
    · cases hstep
  | mark =>
    dsimp only at hstep
    split at hstep
    · rename_i hphase
      cases hstep
      exact h.mark hphase
    · cases hstep
  | raise =>
    dsimp only at hstep
    split at hstep
    · cases hstep
    · cases hstep
      exact h.setPhase trivial
  | crash =>
    cases hstep
    exact { h with phase := trivial }

end Steps

end Ingest
end OpenViking
