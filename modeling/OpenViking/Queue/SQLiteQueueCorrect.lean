import Mathlib.Data.List.Forall2
import OpenViking.Queue.SQLiteQueue

/-!
# The SQLite queue loses and duplicates nothing

A session is the database file together with the calls it has answered.  The
ledger of a session is read from the calls and their replies alone: what was
enqueued and not acknowledged since, in the order of the `enqueue` calls.  The
table always agrees with the ledger row by row, whatever calls and restarts
came in between.
-/

namespace OpenViking
namespace Queue

open Paths List StoredMessage

namespace SQLite

open Database

/-!
# Sessions
-/

inductive Call where
  | createQueue (name : Str)
  | enqueue (queueName : Str) (msg : Message)
  | dequeue (queueName : Str)
  | peek (queueName : Str)
  | size (queueName : Str)
  | listUnacked (queueName : Str)
  | ack (queueName msgId : Str)
  | restart (recoverStaleSec : Int)

inductive Reply where
  | done (result : Except Error Unit)
  | message (result : Except Error (Option Message))
  | count (result : Except Error Nat)
  | messages (result : Except Error (List Message))
  | flag (result : Except Error Bool)
  | opened

def answer (codec : Codec) (now : SystemTime) (db : Database) :
    Call -> Reply × Database
  | .createQueue name =>
    let r := createQueue db name
    (.done r.1, r.2)
  | .enqueue queueName msg =>
    let r := enqueue codec db queueName msg
    (.done r.1, r.2)
  | .dequeue queueName =>
    let r := dequeue codec now db queueName
    (.message r.1, r.2)
  | .peek queueName => (.message (peek codec now db queueName), db)
  | .size queueName => (.count (size db queueName), db)
  | .listUnacked queueName =>
    (.messages (listUnacked codec now db queueName), db)
  | .ack queueName msgId =>
    let r := ack db queueName msgId
    (.flag r.1, r.2)
  | .restart recoverStaleSec =>
    (.opened, openBackend now recoverStaleSec db)

structure Session where
  db : Database
  history : List (Call × Reply)

namespace Session

def start : Session where
  db := Database.empty
  history := []

def call (codec : Codec) (s : Session) (c : SystemTime × Call) : Session :=
  let r := answer codec c.1 s.db c.2
  { db := r.2, history := s.history ++ [(c.2, r.1)] }

def run (codec : Codec) (calls : List (SystemTime × Call)) : Session :=
  calls.foldl (call codec) start

theorem run_append_singleton (codec : Codec)
    (calls : List (SystemTime × Call)) (c : SystemTime × Call) :
    run codec (calls ++ [c]) = (run codec calls).call codec c := by
  rw [run, foldl_append]
  rfl

end Session

/-!
# The ledger
-/

structure Entry where
  queueName : Str
  message : Message

def ledgerStep (entries : List Entry) : Call × Reply -> List Entry
  | (.enqueue queueName msg, .done (.ok ())) =>
    entries ++ [{ queueName := queueName, message := msg }]
  | (.ack queueName msgId, .flag (.ok true)) =>
    entries.filter fun e =>
      !(e.queueName == queueName && e.message.id == msgId)
  | _ => entries

/-- The messages enqueued and not yet acknowledged, in enqueue order. -/
def unacked (history : List (Call × Reply)) : List Entry :=
  history.foldl ledgerStep []

def unackedOf (history : List (Call × Reply)) (queueName : Str) :
    List Entry :=
  (unacked history).filter fun e => e.queueName == queueName

variable (db : Database)

/-- The states in which the table holds a message of a queue. -/
def statusOf (queueName msgId : Str) : List Status :=
  (db.queueMessages.filter fun r =>
    r.queueName == queueName && r.messageId == msgId).map MessageRow.status

variable (calls : List (SystemTime × Call))

def enqueued : List Message :=
  calls.filterMap fun c =>
    match c.2 with
    | .enqueue _ msg => some msg
    | _ => none

/-- No two `enqueue` calls use one message identifier. -/
def FreshIds : Prop :=
  ((enqueued calls).map Message.id).Nodup

/-- The table agrees with the ledger, and so does what the next call says. -/
structure QueueExact (codec : Codec) (s : Session) : Prop where
  once : ((unacked s.history).map fun e => e.message.id).Nodup
  oneState : forall e, e ∈ unacked s.history ->
    (statusOf s.db e.queueName e.message.id = [.pending] ∨
      statusOf s.db e.queueName e.message.id = [.processing]) ∧
    forall q, q ≠ e.queueName -> statusOf s.db q e.message.id = []
  nothingElse : forall r, r ∈ s.db.queueMessages ->
    exists e, e ∈ unacked s.history ∧ e.queueName = r.queueName ∧
      e.message.id = r.messageId
  listed : forall now q, queueKnown s.db q = true ->
    exists msgs, listUnacked codec now s.db q = .ok msgs ∧
      msgs.map Message.content =
        (unackedOf s.history q).map fun e => e.message.content
  unknown : forall q, queueKnown s.db q = false -> unackedOf s.history q = []
  earliest : forall now q, queueKnown s.db q = true ->
    exists reply, (dequeue codec now s.db q).1 = .ok reply ∧
      reply.map Message.content =
        (((unackedOf s.history q).filter fun e =>
          statusOf s.db q e.message.id == [.pending]).head?).map
            fun e => e.message.content
  leaves : forall now c r, r ∈ s.db.queueMessages ->
    (exists r', r' ∈ (answer codec now s.db c).2.queueMessages ∧
      r'.queueName = r.queueName ∧ r'.messageId = r.messageId ∧
      r'.data = r.data) ∨
    c = .ack r.queueName r.messageId

/-!
# The rows of the table

A row stores the ledger entry at its place.  The calls change rows in three
ways: they append one, relabel the state of some, or delete one.
-/

structure Stores (codec : Codec) (r : MessageRow) (e : Entry) : Prop where
  queueName : r.queueName = e.queueName
  messageId : r.messageId = e.message.id
  data : r.data = encodeMessage codec e.message
  lossless : codec.Lossless e.message

structure Agrees (codec : Codec) (db : Database) (entries : List Entry) :
    Prop where
  stored : List.Forall₂ (Stores codec) db.queueMessages entries
  sorted : db.queueMessages.Pairwise fun a b => a.id < b.id
  bounded : forall r, r ∈ db.queueMessages -> r.id ≤ db.sequence
  distinct : (entries.map fun e => e.message.id).Nodup

/-- Changes nothing of a row but its state. -/
structure Relabels (change : MessageRow -> MessageRow) : Prop where
  id : forall r, (change r).id = r.id
  queueName : forall r, (change r).queueName = r.queueName
  messageId : forall r, (change r).messageId = r.messageId
  data : forall r, (change r).data = r.data

theorem relabels_recover : Relabels MessageRow.recover :=
  ⟨fun _ => rfl, fun _ => rfl, fun _ => rfl, fun _ => rfl⟩

theorem relabels_markProcessing (startedAt : Int) :
    Relabels (MessageRow.markProcessing startedAt) :=
  ⟨fun _ => rfl, fun _ => rfl, fun _ => rfl, fun _ => rfl⟩

theorem relabels_ite {change : MessageRow -> MessageRow}
    (h : Relabels change) (test : MessageRow -> Bool) :
    Relabels fun r => if test r then change r else r := by
  constructor <;> intro r <;> cases test r <;>
    simp [h.id, h.queueName, h.messageId, h.data]

namespace Agrees

variable {codec : Codec} {db db' : Database} {entries : List Entry}

section

variable (h : Agrees codec db entries)

include h

theorem of_rows_eq (hrows : db'.queueMessages = db.queueMessages)
    (hseq : db'.sequence = db.sequence) : Agrees codec db' entries := by
  constructor
  · rw [hrows]
    exact h.stored
  · rw [hrows]
    exact h.sorted
  · rw [hrows, hseq]
    exact h.bounded
  · exact h.distinct

theorem updateMessages
    {change : MessageRow -> MessageRow} (hchange : Relabels change)
    (test : MessageRow -> Bool) :
    Agrees codec (db.updateMessages test change) entries := by
  have hite := relabels_ite hchange test
  constructor
  · show List.Forall₂ _ (db.queueMessages.map _) entries
    rw [forall₂_map_left_iff]
    refine h.stored.imp ?_
    intro r e hre
    exact ⟨(hite.queueName r).trans hre.queueName,
      (hite.messageId r).trans hre.messageId,
      (hite.data r).trans hre.data, hre.lossless⟩
  · show List.Pairwise _ (db.queueMessages.map _)
    rw [pairwise_map]
    refine h.sorted.imp ?_
    intro a b hab
    rw [hite.id a, hite.id b]
    exact hab
  · intro r hr
    rcases mem_map.mp hr with ⟨r', hr', rfl⟩
    rw [hite.id r']
    exact h.bounded r' hr'
  · exact h.distinct

theorem insertMessage (queueName : Str)
    {msg : Message} (hlossless : codec.Lossless msg)
    (hfresh : msg.id ∉ entries.map fun e => e.message.id) :
    Agrees codec
      (db.insertMessage queueName msg.id (encodeMessage codec msg)
        (unixSecs msg.timestamp))
      (entries ++ [{ queueName := queueName, message := msg }]) := by
  constructor
  · exact rel_append h.stored
      (List.Forall₂.cons ⟨rfl, rfl, rfl, hlossless⟩ List.Forall₂.nil)
  · show List.Pairwise _ (db.queueMessages ++ [_])
    rw [pairwise_append]
    refine ⟨h.sorted, pairwise_singleton _ _, ?_⟩
    intro a ha b hb
    rw [mem_singleton.mp hb]
    exact Nat.lt_succ_of_le (h.bounded a ha)
  · intro r hr
    rcases mem_append.mp hr with hr | hr
    · exact Nat.le_succ_of_le (h.bounded r hr)
    · rw [mem_singleton.mp hr]
      exact Nat.le_refl _
  · rw [map_append, nodup_append]
    refine ⟨h.distinct, nodup_singleton _, ?_⟩
    intro a ha b hb hab
    rw [map_singleton, mem_singleton] at hb
    rw [hab, hb] at ha
    exact hfresh ha

theorem messageIds_eq : db.queueMessages.map MessageRow.messageId =
      entries.map fun e => e.message.id := by
  have hstored := h.stored
  clear h
  generalize db.queueMessages = rows at hstored
  induction hstored with
  | nil => rfl
  | cons hre _ ih => rw [map_cons, map_cons, hre.messageId, ih]

theorem nodup_messageIds : (db.queueMessages.map MessageRow.messageId).Nodup := by
  rw [h.messageIds_eq]
  exact h.distinct

theorem row_unique {r r' : MessageRow}
    (hr : r ∈ db.queueMessages) (hr' : r' ∈ db.queueMessages)
    (hid : r.messageId = r'.messageId) : r = r' :=
  inj_on_of_nodup_map h.nodup_messageIds hr hr' hid

theorem nodup_rows : db.queueMessages.Nodup :=
  h.nodup_messageIds.of_map _

theorem orderById_filter (test : MessageRow -> Bool) :
    orderById (db.queueMessages.filter test) =
      db.queueMessages.filter test := by
  apply mergeSort_of_pairwise
  refine (h.sorted.sublist filter_sublist).imp ?_
  intro a b hab
  simpa using Nat.le_of_lt hab

end

variable {r : MessageRow}

section

variable (h : Agrees codec db entries)

include h

theorem statusOf_row (hr : r ∈ db.queueMessages) :
    statusOf db r.queueName r.messageId = [r.status] := by
  have hfilter : (db.queueMessages.filter fun r' =>
      r'.queueName == r.queueName && r'.messageId == r.messageId) =
      db.queueMessages.filter fun r' => r' == r := by
    apply filter_congr
    intro r' hr'
    rw [Bool.eq_iff_iff, Bool.and_eq_true, beq_iff_eq, beq_iff_eq, beq_iff_eq]
    constructor
    · intro hboth
      exact h.row_unique hr' hr hboth.2
    · intro heq
      rw [heq]
      exact ⟨rfl, rfl⟩
  rw [statusOf, hfilter, filter_beq, h.nodup_rows.count, if_pos hr]
  rfl

theorem statusOf_other
    (hr : r ∈ db.queueMessages) {q : Str} (hq : q ≠ r.queueName) :
    statusOf db q r.messageId = [] := by
  rw [statusOf, map_eq_nil_iff, filter_eq_nil_iff]
  intro r' hr' hboth
  rw [Bool.and_eq_true, beq_iff_eq, beq_iff_eq] at hboth
  have heq := h.row_unique hr' hr hboth.2
  rw [heq] at hboth
  exact hq hboth.1.symm

theorem stored_mem :
    List.Forall₂ (fun r e => Stores codec r e ∧ r ∈ db.queueMessages)
      db.queueMessages entries := by
  have hgen : forall {rows : List MessageRow} {es : List Entry},
      List.Forall₂ (Stores codec) rows es ->
      (forall r, r ∈ rows -> r ∈ db.queueMessages) ->
      List.Forall₂ (fun r e => Stores codec r e ∧ r ∈ db.queueMessages)
        rows es := by
    intro rows es hes
    induction hes with
    | nil => exact fun _ => List.Forall₂.nil
    | cons hre _ ih =>
      intro hsub
      exact List.Forall₂.cons ⟨hre, hsub _ mem_cons_self⟩
        (ih fun r hr => hsub r (mem_cons_of_mem _ hr))
  exact hgen h.stored fun _ hr => hr

theorem exists_row {e : Entry} (he : e ∈ entries) :
    exists r, r ∈ db.queueMessages ∧ Stores codec r e := by
  rcases forall₂_iff_get.mp h.stored with ⟨hlen, hget⟩
  rcases mem_iff_get.mp he with ⟨i, hi⟩
  have hlt : i.1 < db.queueMessages.length := by
    rw [hlen]
    exact i.2
  have hstores := hget i.1 hlt i.2
  rw [show entries.get ⟨i.1, i.2⟩ = e from hi] at hstores
  exact ⟨_, get_mem _ _, hstores⟩

theorem exists_entry (hr : r ∈ db.queueMessages) :
    exists e, e ∈ entries ∧ Stores codec r e := by
  rcases forall₂_iff_get.mp h.stored with ⟨hlen, hget⟩
  rcases mem_iff_get.mp hr with ⟨i, hi⟩
  have hlt : i.1 < entries.length := by
    rw [← hlen]
    exact i.2
  have hstores := hget i.1 i.2 hlt
  rw [show db.queueMessages.get ⟨i.1, i.2⟩ = r from hi] at hstores
  exact ⟨_, get_mem _ _, hstores⟩

theorem filter_stored {rowTest : MessageRow -> Bool} {entryTest : Entry -> Bool}
    (htest : forall r e, Stores codec r e -> r ∈ db.queueMessages ->
      (rowTest r = true <-> entryTest e = true)) :
    List.Forall₂ (Stores codec) (db.queueMessages.filter rowTest)
      (entries.filter entryTest) := by
  have hrel := rel_filter (p := rowTest) (q := entryTest)
    (fun r e hre => htest r e hre.1 hre.2) h.stored_mem
  exact hrel.imp fun r e hre => hre.1

end

end Agrees

variable {rows : List MessageRow}

theorem mapM_decodeMessage {codec : Codec} (now : SystemTime) {es : List Entry}
    (h : List.Forall₂ (Stores codec) rows es) :
    exists msgs,
      (rows.mapM fun row => decodeMessage codec now row.data) =
        .ok msgs ∧
      msgs.map Message.content = es.map fun e => e.message.content := by
  induction h with
  | nil => exact ⟨[], rfl, rfl⟩
  | @cons r e rows es hre _ ih =>
    rcases ih with ⟨msgs, hmsgs, hcontent⟩
    have hdecode : decodeMessage codec now r.data =
        .ok ((fromMessage e.message).intoMessage codec now) := by
      rw [hre.data]
      exact decodeMessage_encodeMessage hre.lossless now
    refine ⟨(fromMessage e.message).intoMessage codec now ::
      msgs, ?_, ?_⟩
    · rw [mapM_cons, hdecode, hmsgs]
      rfl
    · rw [map_cons, map_cons, content_intoMessage, hcontent]

/-!
# What one call answers
-/

theorem queueName_ne_of_unknown {db : Database} {q : Str}
    (h : queueKnown db q = false)
    (hr : r ∈ db.queueMessages) : r.queueName ≠ q := by
  intro hq
  have hcount : 0 < db.queueMessages.countP fun r => r.queueName == q :=
    countP_pos_iff.mpr ⟨r, hr, by simpa using hq⟩
  simp [queueKnown, hcount] at h

theorem requireQueueExists_known {db : Database} {q : Str}
    (h : queueKnown db q = true) :
    requireQueueExists db q = .ok () := by
  rw [requireQueueExists, if_pos h]

theorem rel_head {α β : Type} {R : α -> β -> Prop} {as : List α}
    {bs : List β} (h : List.Forall₂ R as bs) :
    Option.Rel R as.head? bs.head? := by
  cases h with
  | nil => exact Option.Rel.none
  | cons hab _ => exact Option.Rel.some hab

theorem status_cases (status : Status) :
    (status == .pending || status == .processing) = true := by
  cases status <;> rfl

namespace Agrees

variable {codec : Codec} {db : Database} {entries : List Entry}

section

variable (h : Agrees codec db entries)

include h

theorem unackedRows (q : Str) : db.unackedRows q =
      db.queueMessages.filter fun r => r.queueName == q := by
  rw [Database.unackedRows, h.orderById_filter]
  apply filter_congr
  intro r _
  rw [status_cases, Bool.and_true]

theorem listUnacked (now : SystemTime) {q : Str} (hq : queueKnown db q = true) :
    exists msgs, listUnacked codec now db q = .ok msgs ∧
      msgs.map Message.content =
        (entries.filter fun e => e.queueName == q).map
          fun e => e.message.content := by
  have hstored : List.Forall₂ (Stores codec)
      (db.queueMessages.filter fun r => r.queueName == q)
      (entries.filter fun e => e.queueName == q) := by
    apply h.filter_stored
    intro r e hre _
    rw [hre.queueName]
  rcases mapM_decodeMessage now hstored with ⟨msgs, hmsgs, hcontent⟩
  refine ⟨msgs, ?_, hcontent⟩
  rw [SQLite.listUnacked, requireQueueExists_known hq, h.unackedRows]
  exact hmsgs

/-- The first pending row stores the first pending entry of the queue. -/
theorem head_pending (q : Str) : Option.Rel (Stores codec) (db.pendingRows q).head?
      (((entries.filter fun e => e.queueName == q).filter fun e =>
        statusOf db q e.message.id == [.pending]).head?) := by
  have hstored : List.Forall₂ (Stores codec)
      (db.queueMessages.filter fun r =>
        r.queueName == q && r.status == .pending)
      (entries.filter fun e => e.queueName == q &&
        statusOf db q e.message.id == [.pending]) := by
    apply h.filter_stored
    intro r e hre hr
    rw [Bool.and_eq_true, Bool.and_eq_true, beq_iff_eq, beq_iff_eq,
      beq_iff_eq, beq_iff_eq, ← hre.queueName, ← hre.messageId]
    constructor
    · intro hboth
      refine ⟨hboth.1, ?_⟩
      rw [← hboth.1, h.statusOf_row hr, hboth.2]
    · intro hboth
      refine ⟨hboth.1, ?_⟩
      rw [← hboth.1, h.statusOf_row hr] at hboth
      exact head_eq_of_cons_eq hboth.2
  have hentries : ((entries.filter fun e => e.queueName == q).filter fun e =>
      statusOf db q e.message.id == [.pending]) =
      entries.filter fun e => e.queueName == q &&
        statusOf db q e.message.id == [.pending] := by
    rw [filter_filter]
    apply filter_congr
    intro e _
    rw [Bool.and_comm]
  rw [hentries, Database.pendingRows, h.orderById_filter]
  exact rel_head hstored

theorem dequeue_reply (now : SystemTime) {q : Str} (hq : queueKnown db q = true) :
    exists reply, (dequeue codec now db q).1 = .ok reply ∧
      reply.map Message.content =
        (((entries.filter fun e => e.queueName == q).filter fun e =>
          statusOf db q e.message.id == [.pending]).head?).map
            fun e => e.message.content := by
  have hhead := h.head_pending q
  rw [dequeue, requireQueueExists_known hq]
  generalize (((entries.filter fun e => e.queueName == q).filter fun e =>
    statusOf db q e.message.id == [.pending]).head?) = first at *
  cases hrow : (db.pendingRows q).head? with
  | none =>
    rw [hrow] at hhead
    cases hhead
    exact ⟨none, rfl, rfl⟩
  | some row =>
    rw [hrow] at hhead
    cases hhead with
    | @some _ e hre =>
      have hdecode := decodeMessage_encodeMessage hre.lossless now
      rw [← hre.data] at hdecode
      refine ⟨some ((fromMessage e.message).intoMessage
        codec now), ?_, rfl⟩
      simp only [hdecode]

end

end Agrees

/-!
# What one call does to the table
-/

theorem insertQueue_rows (name : Str) :
    (db.insertQueue name).2.queueMessages = db.queueMessages ∧
      (db.insertQueue name).2.sequence = db.sequence := by
  rw [Database.insertQueue]
  split <;> exact ⟨rfl, rfl⟩

theorem createQueue_rows (name : Str) :
    (createQueue db name).2.queueMessages = db.queueMessages ∧
      (createQueue db name).2.sequence = db.sequence := by
  have h := insertQueue_rows db name
  rw [createQueue]
  split
  · rename_i heq
    rw [heq] at h
    exact h
  · rename_i heq
    rw [heq] at h
    exact h

theorem runMigrations_rows : (runMigrations db).queueMessages = db.queueMessages ∧
      (runMigrations db).sequence = db.sequence := by
  rw [runMigrations]
  generalize (db.queueMessages.map MessageRow.queueName).dedup = names
  induction names generalizing db with
  | nil => exact ⟨rfl, rfl⟩
  | cons name rest ih =>
    rw [foldl_cons]
    rcases ih (if name = [] then db else (db.insertQueue name).2)
      with ⟨hrows, hseq⟩
    rw [hrows, hseq]
    split
    · exact ⟨rfl, rfl⟩
    · exact insertQueue_rows db name

/-- The rows after a call that neither enqueues nor acknowledges. -/
def RelabelsRows (rows rows' : List MessageRow) : Prop :=
  exists change, Relabels change ∧ rows' = rows.map change

theorem relabelsRows_refl (rows : List MessageRow) : RelabelsRows rows rows :=
  ⟨id, ⟨fun _ => rfl, fun _ => rfl, fun _ => rfl, fun _ => rfl⟩,
    (map_id rows).symm⟩

theorem relabelsRows_dequeue (codec : Codec) (now : SystemTime)
    (db : Database) (q : Str) :
    RelabelsRows db.queueMessages (dequeue codec now db q).2.queueMessages ∧
      (dequeue codec now db q).2.sequence = db.sequence := by
  rw [dequeue]
  cases requireQueueExists db q with
  | error e => exact ⟨relabelsRows_refl _, rfl⟩
  | ok _ =>
    cases (db.pendingRows q).head? with
    | none => exact ⟨relabelsRows_refl _, rfl⟩
    | some row =>
      have hmarked : RelabelsRows db.queueMessages
          (db.updateMessages (fun r => r.id == row.id)
            (MessageRow.markProcessing (utcTimestamp now))).queueMessages :=
        ⟨_, relabels_ite (relabels_markProcessing _) _, rfl⟩
      cases hdecode : decodeMessage codec now row.data with
      | error e =>
        simp only [hdecode]
        exact ⟨hmarked, rfl⟩
      | ok msg =>
        simp only [hdecode]
        exact ⟨hmarked, rfl⟩

theorem relabelsRows_openBackend (now : SystemTime) (staleSec : Int)
    (db : Database) :
    RelabelsRows db.queueMessages
        (openBackend now staleSec db).queueMessages ∧
      (openBackend now staleSec db).sequence = db.sequence := by
  rcases runMigrations_rows db with ⟨hrows, hseq⟩
  constructor
  · refine ⟨_, relabels_ite relabels_recover
      (staleRow staleSec (utcTimestamp now - max staleSec 0)), ?_⟩
    show (runMigrations db).queueMessages.map _ = _
    rw [hrows]
  · exact hseq

/-- What an acknowledgement deletes. -/
def acked (q id : Str) (r : MessageRow) : Bool :=
  r.queueName == q && r.messageId == id && r.status == .processing

theorem ack_cases (q id : Str) : (exists e, ack db q id = (Except.error e, db)) ∨
    ((forall r, r ∈ db.queueMessages -> acked q id r = false) ∧
      ack db q id = (Except.ok false, db)) ∨
    ((exists r, r ∈ db.queueMessages ∧ acked q id r = true) ∧
      ack db q id = (Except.ok true,
        { db with queueMessages :=
            db.queueMessages.filter fun r => !acked q id r })) := by
  rw [ack]
  cases requireQueueExists db q with
  | error e => exact .inl ⟨e, rfl⟩
  | ok _ =>
    apply Or.inr
    show (_ ∧ (Except.ok (decide (db.queueMessages.countP (acked q id) > 0)),
        ({ db with queueMessages :=
          db.queueMessages.filter fun r => !acked q id r } : Database)) = _) ∨
      (_ ∧ (Except.ok (decide (db.queueMessages.countP (acked q id) > 0)),
        ({ db with queueMessages :=
          db.queueMessages.filter fun r => !acked q id r } : Database)) = _)
    by_cases hpos : db.queueMessages.countP (acked q id) > 0
    · rw [decide_eq_true hpos]
      exact .inr ⟨countP_pos_iff.mp hpos, rfl⟩
    have hnone : forall r, r ∈ db.queueMessages -> acked q id r = false := by
      intro r hr
      have hzero : db.queueMessages.countP (acked q id) = 0 := by omega
      simpa using countP_eq_zero.mp hzero r hr
    have hall : (db.queueMessages.filter fun r => !acked q id r) =
        db.queueMessages := by
      rw [filter_eq_self]
      intro r hr
      rw [hnone r hr]
      rfl
    rw [decide_eq_false hpos, hall]
    exact .inl ⟨hnone, rfl⟩

namespace Agrees

variable {codec : Codec} {db db' : Database} {entries : List Entry}

section

variable (h : Agrees codec db entries)

include h

theorem relabelsRows (hrows : RelabelsRows db.queueMessages db'.queueMessages)
    (hseq : db'.sequence = db.sequence) : Agrees codec db' entries := by
  rcases hrows with ⟨change, hchange, hmap⟩
  have hupdate := h.updateMessages hchange fun _ => true
  apply hupdate.of_rows_eq _ hseq
  rw [hmap]
  rfl

theorem ack (q id : Str) : Agrees codec (ack db q id).2 (ledgerStep entries
        (.ack q id, .flag (SQLite.ack db q id).1)) := by
  rcases ack_cases db q id with ⟨e, hack⟩ | ⟨_, hack⟩ | ⟨hsome, hack⟩
  · rw [hack]
    exact h
  · rw [hack]
    exact h
  · rcases hsome with ⟨r, hr, hracked⟩
    have hparts : r.queueName = q ∧ r.messageId = id ∧
        r.status = .processing := by
      simpa [acked, and_assoc] using hracked
    rw [hack]
    constructor
    · apply h.filter_stored
      intro r' e hre hr'
      have hiff : acked q id r' = true <->
          (e.queueName == q && e.message.id == id) = true := by
        rw [Bool.and_eq_true, beq_iff_eq, beq_iff_eq, ← hre.queueName,
          ← hre.messageId]
        constructor
        · intro hacked
          simp [acked] at hacked
          exact ⟨hacked.1.1, hacked.1.2⟩
        · intro hboth
          have heq : r' = r := h.row_unique hr' hr (hboth.2.trans hparts.2.1.symm)
          rw [heq]
          exact hracked
      rw [Bool.not_eq_true', Bool.not_eq_true', ← Bool.not_eq_true,
        ← Bool.not_eq_true]
      exact not_congr hiff
    · exact h.sorted.sublist filter_sublist
    · intro r' hr'
      exact h.bounded r' (mem_of_mem_filter hr')
    · exact h.distinct.sublist (filter_sublist.map _)

theorem enqueue (q : Str) {msg : Message} (hlossless : codec.Lossless msg)
    (hfresh : msg.id ∉ entries.map fun e => e.message.id) :
    Agrees codec (enqueue codec db q msg).2
      (ledgerStep entries
        (.enqueue q msg, .done (SQLite.enqueue codec db q msg).1)) := by
  rw [SQLite.enqueue]
  cases requireQueueExists db q with
  | error e => exact h
  | ok _ => exact h.insertMessage q hlossless hfresh

theorem answer (now : SystemTime) (c : Call)
    (hfresh : forall q msg, c = .enqueue q msg ->
      codec.Lossless msg ∧ msg.id ∉ entries.map fun e => e.message.id) :
    Agrees codec (answer codec now db c).2
      (ledgerStep entries (c, (SQLite.answer codec now db c).1)) := by
  cases c with
  | createQueue name =>
    rcases createQueue_rows db name with ⟨hrows, hseq⟩
    exact h.of_rows_eq hrows hseq
  | enqueue q msg =>
    rcases hfresh q msg rfl with ⟨hlossless, hnew⟩
    exact h.enqueue q hlossless hnew
  | dequeue q =>
    rcases relabelsRows_dequeue codec now db q with ⟨hrows, hseq⟩
    exact h.relabelsRows hrows hseq
  | ack q id => exact h.ack q id
  | restart staleSec =>
    rcases relabelsRows_openBackend now staleSec db with ⟨hrows, hseq⟩
    exact h.relabelsRows hrows hseq
  | _ => exact h

end

end Agrees

def Remains (r : MessageRow) (rows : List MessageRow) : Prop :=
  exists r', r' ∈ rows ∧ r'.queueName = r.queueName ∧
    r'.messageId = r.messageId ∧ r'.data = r.data

theorem remains_of_mem (h : r ∈ rows) : Remains r rows :=
  ⟨r, h, rfl, rfl, rfl⟩

theorem remains_of_relabelsRows {rows' : List MessageRow}
    (h : RelabelsRows rows rows') (hr : r ∈ rows) : Remains r rows' := by
  rcases h with ⟨change, hchange, hmap⟩
  rw [hmap]
  exact ⟨change r, mem_map_of_mem hr, hchange.queueName r,
    hchange.messageId r, hchange.data r⟩

/-- Only an acknowledgement of its identifier in its queue deletes a row. -/
theorem remains_or_ack (codec : Codec) (now : SystemTime) (db : Database)
    (c : Call) (hr : r ∈ db.queueMessages) :
    Remains r (answer codec now db c).2.queueMessages ∨
      c = .ack r.queueName r.messageId := by
  cases c with
  | createQueue name =>
    apply Or.inl
    apply remains_of_mem
    show r ∈ (createQueue db name).2.queueMessages
    rw [(createQueue_rows db name).1]
    exact hr
  | enqueue q msg =>
    apply Or.inl
    apply remains_of_mem
    show r ∈ (enqueue codec db q msg).2.queueMessages
    rw [enqueue]
    cases requireQueueExists db q with
    | error e => exact hr
    | ok _ => exact mem_append_left _ hr
  | dequeue q =>
    exact .inl (remains_of_relabelsRows
      (relabelsRows_dequeue codec now db q).1 hr)
  | ack q id =>
    show Remains r (ack db q id).2.queueMessages ∨ _
    rcases ack_cases db q id with ⟨e, hack⟩ | ⟨_, hack⟩ | ⟨_, hack⟩
    · rw [hack]
      exact .inl (remains_of_mem hr)
    · rw [hack]
      exact .inl (remains_of_mem hr)
    · rw [hack]
      cases hacked : acked q id r with
      | false =>
        apply Or.inl
        apply remains_of_mem
        exact mem_filter.mpr ⟨hr, by rw [hacked]; rfl⟩
      | true =>
        have hparts : (r.queueName = q ∧ r.messageId = id) ∧
            r.status = .processing := by
          simpa [acked] using hacked
        rw [hparts.1.1, hparts.1.2]
        exact .inr rfl
  | restart staleSec =>
    exact .inl (remains_of_relabelsRows
      (relabelsRows_openBackend now staleSec db).1 hr)
  | _ => exact .inl (remains_of_mem hr)

/-!
# Whole sessions
-/

theorem Agrees.queueExact {codec : Codec} {s : Session}
    (h : Agrees codec s.db (unacked s.history)) : QueueExact codec s where
  once := h.distinct
  oneState := by
    intro e he
    rcases h.exists_row he with ⟨r, hr, hre⟩
    rw [← hre.queueName, ← hre.messageId]
    constructor
    · rw [h.statusOf_row hr]
      cases r.status with
      | pending => exact .inl rfl
      | processing => exact .inr rfl
    · intro q hq
      exact h.statusOf_other hr hq
  nothingElse := by
    intro r hr
    rcases h.exists_entry hr with ⟨e, he, hre⟩
    exact ⟨e, he, hre.queueName.symm, hre.messageId.symm⟩
  listed := fun now q hq => h.listUnacked now hq
  unknown := by
    intro q hq
    rw [unackedOf, filter_eq_nil_iff]
    intro e he heq
    rcases h.exists_row he with ⟨r, hr, hre⟩
    rw [beq_iff_eq, ← hre.queueName] at heq
    exact queueName_ne_of_unknown hq hr heq
  earliest := fun now q hq => h.dequeue_reply now hq
  leaves := fun now c r hr => remains_or_ack codec now s.db c hr

theorem enqueued_append (c : SystemTime × Call) :
    enqueued (calls ++ [c]) = enqueued calls ++ enqueued [c] :=
  filterMap_append

theorem unacked_append (history : List (Call × Reply)) (e : Call × Reply) :
    unacked (history ++ [e]) = ledgerStep (unacked history) e := by
  rw [unacked, foldl_append]
  rfl

theorem mem_ledgerStep (now : SystemTime) {entries : List Entry} {c : Call}
    {reply : Reply} {e : Entry} (h : e ∈ ledgerStep entries (c, reply)) :
    e ∈ entries ∨ e.message ∈ enqueued [(now, c)] := by
  unfold ledgerStep at h
  split at h
  · rename_i queueName msg heq
    cases heq
    rcases mem_append.mp h with h | h
    · exact .inl h
    · rw [mem_singleton.mp h]
      exact .inr mem_cons_self
  · exact .inl (mem_of_mem_filter h)
  · exact .inl h

theorem run_agrees (codec : Codec) (calls : List (SystemTime × Call))
    (hfresh : FreshIds calls)
    (hlossless : forall msg, msg ∈ enqueued calls -> codec.Lossless msg) :
    Agrees codec (Session.run codec calls).db
      (unacked (Session.run codec calls).history) ∧
    forall e, e ∈ unacked (Session.run codec calls).history ->
      e.message ∈ enqueued calls := by
  induction calls using reverseRecOn with
  | nil =>
    constructor
    · constructor
      · exact List.Forall₂.nil
      · exact List.Pairwise.nil
      · nofun
      · exact nodup_nil
    · nofun
  | append_singleton calls c ih =>
    rw [FreshIds, enqueued_append, map_append, nodup_append] at hfresh
    rw [enqueued_append] at hlossless
    rcases ih hfresh.1
      (fun msg hmsg => hlossless msg (mem_append_left _ hmsg))
      with ⟨hagrees, hsub⟩
    rw [Session.run_append_singleton]
    constructor
    · show Agrees codec (answer codec c.1 _ c.2).2 (unacked (_ ++ [_]))
      rw [unacked_append]
      apply hagrees.answer
      intro q msg hc
      have hmsg : msg ∈ enqueued [c] := by
        rcases c with ⟨now, c⟩
        rw [show c = .enqueue q msg from hc]
        exact mem_cons_self
      refine ⟨hlossless msg (mem_append_right _ hmsg), ?_⟩
      intro hold
      rcases mem_map.mp hold with ⟨e, he, heq⟩
      exact hfresh.2.2 _ (mem_map_of_mem (hsub e he)) _
        (mem_map_of_mem hmsg) heq
    · intro e he
      rw [enqueued_append, mem_append]
      change e ∈ unacked (_ ++ [_]) at he
      rw [unacked_append] at he
      rcases mem_ledgerStep c.1 he with he | he
      · exact .inl (hsub e he)
      · exact .inr he

/-- Nothing is lost and nothing is duplicated: after any sequence of calls and
restarts the table, its listing and the next call agree with the ledger. -/
theorem session_exact (codec : Codec) (calls : List (SystemTime × Call))
    (hfresh : FreshIds calls)
    (hlossless : forall msg, msg ∈ enqueued calls -> codec.Lossless msg) :
    QueueExact codec (Session.run codec calls) :=
  (run_agrees codec calls hfresh hlossless).1.queueExact

def sampleMessage (id : String) : Message where
  id := id.toList
  data := [104, 105]
  timestamp := 7 * 10 ^ 9

def sampleText (id : Str) : Str :=
  "\x7b\"id\":\"".toList ++ id ++
    "\",\"data\":[104,105],\"timestamp\":7\x7d".toList

def sampleValue (id : String) : Value :=
  (StoredMessage.fromMessage (sampleMessage id)).serialize

def sampleFromStr (text : Str) : Except Str Value :=
  if text = sampleText "m1".toList then .ok (sampleValue "m1")
  else if text = sampleText "m2".toList then .ok (sampleValue "m2")
  else .error "expected value".toList

/-- The texts of two messages and their values. -/
def sampleCodec : Codec where
  toString := fun value =>
    match value with
    | .object ((_, .string text) :: _) => sampleText text
    | _ => []
  fromStr := sampleFromStr
  parseRfc3339 := fun _ => none
  utf8 := fun _ => []

/-- The first message is delivered, delivered again after a restart and deleted;
the second one stays. -/
def sampleCalls : List (SystemTime × Call) :=
  [(0, .createQueue "q".toList),
   (1, .enqueue "q".toList (sampleMessage "m1")),
   (2, .enqueue "q".toList (sampleMessage "m2")),
   (3, .dequeue "q".toList),
   (4, .restart 0),
   (5, .dequeue "q".toList),
   (6, .ack "q".toList "m1".toList)]

private theorem enqueued_sampleCalls :
    enqueued sampleCalls = [sampleMessage "m1", sampleMessage "m2"] :=
  rfl

theorem session_exact_sample :
    QueueExact sampleCodec (Session.run sampleCodec sampleCalls) := by
  apply session_exact sampleCodec sampleCalls
  · rw [FreshIds, enqueued_sampleCalls]
    decide
  · intro msg hmsg
    rw [enqueued_sampleCalls, List.mem_cons, List.mem_singleton] at hmsg
    rcases hmsg with rfl | rfl
    · show sampleFromStr (sampleText "m1".toList) = .ok (sampleValue "m1")
      rw [sampleFromStr, if_pos rfl]
    · show sampleFromStr (sampleText "m2".toList) = .ok (sampleValue "m2")
      have hother : sampleText "m2".toList ≠ sampleText "m1".toList := by decide
      rw [sampleFromStr, if_neg hother, if_pos rfl]

end SQLite

end Queue
end OpenViking
