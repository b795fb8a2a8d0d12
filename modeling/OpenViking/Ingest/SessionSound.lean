import OpenViking.Ingest.Poll

/-!
# One ingested session

What a session has received is what its cursor passed and what landed of its saved
batch.
-/

namespace OpenViking
namespace Ingest

open List OvSession Nat

/-!
# One session
-/

/-- What a saved batch says about the log and the server. -/
structure BatchSound (config : IngestConfig) (log : List Line) (cursor : Nat)
    (batch : PendingBatch) (session : OvSession) (landed : Nat) (shrunk : Bool)
    (owns : Prop) : Prop where
  within : batch.cursor ≤ log.length
  reach : batch.cursor ≤
    cursor + (readMessages defaultReadLimit (log.drop cursor)).2
  count : sentBy config.cc log cursor + batch.count = sentBy config.cc log batch.cursor
  pos : 0 < batch.count
  landed_le : landed ≤ batch.count
  live_le : owns -> session.live.length ≤ batch.baseline + landed
  live_eq : owns -> 0 < landed -> shrunk = false ->
    session.live.length = batch.baseline + landed

/-- The session has received what the cursor passed and what landed of the saved
batch. -/
structure SessionSound (config : IngestConfig) (log : List Line) (record : CursorRecord)
    (session : OvSession) (landed : Nat) (shrunk : Bool) (appender owns : Prop) :
    Prop where
  cursor_le : record.cursor ≤ log.length
  fresh : ¬ appender -> sentBy config.cc log record.cursor = 0 ∧ landed = 0
  received : appender ->
    session.received =
      (payloadsOf config.cc log).take (sentBy config.cc log record.cursor + landed)
  settled : record.pending = none -> landed = 0
  committed : record.needsCommit = false ->
    sentBy config.cc log record.cursor ≤ session.committed.length
  batch : forall (batch : PendingBatch), record.pending = some batch ->
    BatchSound config log record.cursor batch session landed shrunk owns

section Sessions

variable {config : IngestConfig} {log : List Line} {record : CursorRecord}
  {session : OvSession} {landed : Nat} {shrunk : Bool} {appender owns : Prop}

theorem OvSession.received_commit (session : OvSession) (keepRecentCount : Nat) :
    (session.commit keepRecentCount).received = session.received := by
  unfold commit received
  dsimp only
  rw [append_assoc, take_append_drop]

theorem OvSession.committed_le_commit (session : OvSession) (keepRecentCount : Nat) :
    session.committed.length ≤ (session.commit keepRecentCount).committed.length := by
  unfold commit
  dsimp only
  rw [length_append]
  exact le_add_right _ _

theorem OvSession.live_commit_le (session : OvSession) (keepRecentCount : Nat) :
    (session.commit keepRecentCount).live.length ≤ session.live.length := by
  unfold commit
  dsimp only
  rw [length_drop]
  exact sub_le _ _

theorem OvSession.commit_of_le {session : OvSession} {keepRecentCount : Nat}
    (h : session.live.length ≤ keepRecentCount) :
    session.commit keepRecentCount = session := by
  unfold commit
  dsimp only
  rw [Nat.sub_eq_zero_of_le h, take_zero, append_nil, drop_zero]

theorem OvSession.live_commit_zero (session : OvSession) :
    (session.commit 0).live = [] := by
  unfold commit
  dsimp only
  rw [Nat.sub_zero, drop_length]

theorem OvSession.received_append (session : OvSession)
    (chunk : List AddMessageRequest) :
    (session.append chunk).received = session.received ++ chunk := by
  unfold append received
  dsimp only
  rw [append_assoc]

theorem take_append_chunk {cursor newCursor landed : Nat}
    {payloads chunk : List AddMessageRequest}
    (hpayloads : payloadsOf config.cc (log.take newCursor) =
      payloadsOf config.cc (log.take cursor) ++ payloads)
    (hchunk : chunk <+: payloads.drop landed)
    (hroom : landed + chunk.length ≤ payloads.length) :
    (payloadsOf config.cc log).take (sentBy config.cc log cursor + landed) ++ chunk =
      (payloadsOf config.cc log).take
        (sentBy config.cc log cursor + landed + chunk.length) := by
  have hlog : payloadsOf config.cc log = payloadsOf config.cc (log.take cursor) ++
        (payloads ++ payloadsOf config.cc (log.drop newCursor)) := by
    rw [← append_assoc, ← hpayloads, ← payloadsOf_append, take_append_drop]
  have hdrop : (payloadsOf config.cc log).drop (sentBy config.cc log cursor + landed) =
      payloads.drop landed ++ payloadsOf config.cc (log.drop newCursor) := by
    rw [hlog, sentBy, ← drop_drop, drop_left,
      drop_append_of_le_length (by omega)]
  obtain ⟨rest, hrest⟩ := hchunk
  symm
  rw [take_add, hdrop, ← hrest, append_assoc, take_left]

namespace BatchSound

variable {batch : PendingBatch} {cursor : Nat}

section

variable (h : BatchSound config log cursor batch session landed shrunk owns)

include h

theorem grow
    (hcursor : cursor ≤ log.length) (line : Line) :
    BatchSound config (log ++ [line]) cursor batch session landed shrunk owns :=
  { h with
    within := by
      rw [length_append]
      exact le_add_right_of_le h.within
    reach := by
      rw [drop_append_of_le_length hcursor]
      have hfurther := readMessages_count_append defaultReadLimit (log.drop cursor) [line]
      have hreach := h.reach
      omega
    count := by
      rw [sentBy_append config.cc _ hcursor, sentBy_append config.cc _ h.within]
      exact h.count }

theorem commit
    (keepRecentCount : Nat) :
    BatchSound config log cursor batch (session.commit keepRecentCount) landed
      (shrunk || decide (keepRecentCount < session.live.length)) owns :=
  { h with
    live_le := fun hown =>
      le_trans (session.live_commit_le keepRecentCount) (h.live_le hown)
    live_eq := by
      intro hown hpos hshrunk
      rcases Bool.or_eq_false_iff.mp hshrunk with ⟨hbefore, hall⟩
      rw [commit_of_le (not_lt.mp (of_decide_eq_false hall))]
      exact h.live_eq hown hpos hbefore }

theorem payloads_ne_nil : payloadsOf config.cc ((log.drop cursor).take
      (readMessages defaultReadLimit (log.drop cursor)).2) ≠ [] := by
  intro hnil
  have hmono := sentBy_mono config.cc log h.reach
  rw [sentBy_add, hnil, length_nil, add_zero, ← h.count] at hmono
  have hpos := h.pos
  omega

end

end BatchSound

namespace SessionSound

section

variable (h : SessionSound config log record session landed shrunk appender owns)

include h

theorem grow
    (line : Line) :
    SessionSound config (log ++ [line]) record session landed shrunk appender owns where
  cursor_le := by
    rw [length_append]
    exact le_add_right_of_le h.cursor_le
  fresh := by
    rw [sentBy_append config.cc _ h.cursor_le]
    exact h.fresh
  received := by
    intro happender
    have hlength : sentBy config.cc log record.cursor + landed
        ≤ (payloadsOf config.cc log).length := by
      cases hpending : record.pending with
      | none =>
        rw [h.settled hpending, add_zero]
        exact sentBy_le config.cc log record.cursor
      | some batch =>
        have hbatch := h.batch batch hpending
        have hle := sentBy_le config.cc log batch.cursor
        have hcount := hbatch.count
        have hlanded := hbatch.landed_le
        omega
    rw [sentBy_append config.cc _ h.cursor_le, payloadsOf_append,
      take_append_of_le_length hlength]
    exact h.received happender
  settled := h.settled
  committed := by
    rw [sentBy_append config.cc _ h.cursor_le]
    exact h.committed
  batch := fun batch hpending => (h.batch batch hpending).grow h.cursor_le line

theorem commit
    (keepRecentCount : Nat) :
    SessionSound config log record (session.commit keepRecentCount) landed
      (shrunk || decide (keepRecentCount < session.live.length)) appender owns :=
  { h with
    received := by
      rw [received_commit]
      exact h.received
    committed := fun hneeds =>
      le_trans (h.committed hneeds) (session.committed_le_commit keepRecentCount)
    batch := fun batch hpending => (h.batch batch hpending).commit keepRecentCount }

theorem clearPending
    (hlanded : landed = 0) :
    SessionSound config log record.clearPending session 0 shrunk appender owns :=
  { h with
    fresh := fun happender => ⟨(h.fresh happender).1, rfl⟩
    received := by
      intro happender
      rw [h.received happender, hlanded]
      rfl
    settled := fun _ => rfl
    batch := nofun }

end

variable {batch : PendingBatch}

section

variable (h : SessionSound config log record session landed shrunk appender owns)

include h

theorem confirmAppend
    (hpending : record.pending = some batch)
    (hlanded : landed = batch.count) :
    SessionSound config log (record.confirmAppend batch.cursor batch.count) session 0
      shrunk appender owns where
  cursor_le := (h.batch batch hpending).within
  fresh := by
    intro happender
    have hbatch := h.batch batch hpending
    have hpos := hbatch.pos
    have hfresh := (h.fresh happender).2
    omega
  received := by
    intro happender
    have hcount := (h.batch batch hpending).count
    rw [h.received happender, hlanded, hcount]
    rfl
  settled := fun _ => rfl
  committed := nofun
  batch := nofun

/-- The cursor passes lines that send nothing. -/
theorem advanceCursor
    {count : Nat} (hcount : record.cursor + count ≤ log.length)
    (hnil : payloadsOf config.cc ((log.drop record.cursor).take count) = [])
    (hpending : record.pending = none) :
    SessionSound config log (record.advanceCursor (record.cursor + count)) session landed
      shrunk appender owns := by
  have hsent : sentBy config.cc log (record.cursor + count) =
      sentBy config.cc log record.cursor := by
    rw [sentBy_add, hnil]
    rfl
  exact
    { cursor_le := hcount
      fresh := by
        change ¬ appender -> sentBy config.cc log (record.cursor + count) = 0 ∧ _
        rw [hsent]
        exact h.fresh
      received := by
        change appender -> _ = take
          (sentBy config.cc log (record.cursor + count) + landed) _
        rw [hsent]
        exact h.received
      settled := h.settled
      committed := by
        change _ -> sentBy config.cc log (record.cursor + count) ≤ _
        rw [hsent]
        exact h.committed
      batch := fun batch hsome => by
        change record.pending = some batch at hsome
        rw [hpending] at hsome
        cases hsome }

theorem markCommitted
    (hlive : session.live = []) :
    SessionSound config log record.markCommitted session landed shrunk appender
      owns :=
  { h with
    committed := by
      intro _
      change sentBy config.cc log record.cursor ≤ _
      rcases Classical.em appender with happender | hnot
      · have hreceived := h.received happender
        unfold OvSession.received at hreceived
        rw [hlive, append_nil] at hreceived
        rw [hreceived, length_take]
        exact Nat.le_min.mpr
          ⟨Nat.le_add_right _ _, sentBy_le config.cc log record.cursor⟩
      · rw [(h.fresh hnot).1]
        exact Nat.zero_le _ }

theorem setPending
    (hlanded : landed = 0)
    (hbatch : BatchSound config log record.cursor batch session landed shrunk owns) :
    SessionSound config log (record.setPending batch) session landed shrunk appender
      owns :=
  { h with
    settled := fun _ => hlanded
    batch := by
      intro other hother
      cases hother
      exact hbatch }

theorem of_fresh
    (hnot : ¬ appender) (session' : OvSession) (shrunk' : Bool) :
    SessionSound config log record session' landed shrunk' appender False :=
  { h with
    received := fun happender => absurd happender hnot
    committed := by
      intro _
      rw [(h.fresh hnot).1]
      exact zero_le _
    batch := by
      intro batch hpending
      have hbatch := h.batch batch hpending
      exact ⟨hbatch.within, hbatch.reach, hbatch.count, hbatch.pos, hbatch.landed_le,
        False.elim, False.elim⟩ }

theorem setShrunk
    (hlanded : landed = 0) (shrunk' : Bool) :
    SessionSound config log record session landed shrunk' appender owns :=
  { h with
    batch := by
      intro batch hpending
      have hbatch := h.batch batch hpending
      refine ⟨hbatch.within, hbatch.reach, hbatch.count, hbatch.pos, hbatch.landed_le,
        hbatch.live_le, ?_⟩
      intro _ hpos
      omega }

/-- More messages of the saved batch land. -/
theorem land
    (hpending : record.pending = some batch)
    {payloads chunk : List AddMessageRequest}
    (hpayloads : payloadsOf config.cc (log.take batch.cursor) =
      payloadsOf config.cc (log.take record.cursor) ++ payloads)
    (hchunk : chunk <+: payloads.drop landed)
    (hreceived : session.received =
      (payloadsOf config.cc log).take (sentBy config.cc log record.cursor + landed))
    (hle : session.live.length ≤ batch.baseline + landed)
    (heq : shrunk = false -> session.live.length = batch.baseline + landed)
    (owns' : Prop) :
    SessionSound config log record (session.append chunk) (landed + chunk.length) shrunk
      True owns' := by
  have hbatch := h.batch batch hpending
  have hcount : batch.count = payloads.length := by
    have hlength := congrArg length hpayloads
    rw [length_append] at hlength
    have hsent := hbatch.count
    unfold sentBy at hsent
    omega
  have hroom : landed + chunk.length ≤ payloads.length := by
    have hle := hchunk.length_le
    rw [length_drop] at hle
    have hlanded := hbatch.landed_le
    omega
  have happend : (session.append chunk).live.length =
      session.live.length + chunk.length := by
    unfold append
    dsimp only
    rw [length_append]
  exact
    { cursor_le := h.cursor_le
      fresh := fun hnot => absurd trivial hnot
      received := fun _ => by
        rw [received_append, hreceived, ← add_assoc]
        exact take_append_chunk hpayloads hchunk hroom
      settled := fun hnone => by
        rw [hpending] at hnone
        cases hnone
      committed := h.committed
      batch := fun other hother => by
        rw [hpending] at hother
        cases hother
        exact
          { within := hbatch.within
            reach := hbatch.reach
            count := hbatch.count
            pos := hbatch.pos
            landed_le := by omega
            live_le := fun _ => by omega
            live_eq := fun _ _ hshrunk => by
              have hlive := heq hshrunk
              omega } }

end

end SessionSound

end Sessions

end Ingest
end OpenViking
