import OpenViking.Common.Like
import OpenViking.Queue.RedisScripts

/-!
# The SQLite queue

`SQLiteQueueBackend` keeps all queues in two tables.  Every statement, and the
transaction of `dequeue`, takes effect at once or not at all.  The clock is an
argument: `now` is what the system clock answers during the call.
-/

namespace OpenViking
namespace Queue

open Paths

namespace SQLite

/-!
# The tables
-/

inductive Status where
  | pending
  | processing
deriving DecidableEq

/-- A row of `queue_messages`. -/
structure MessageRow where
  id : Nat
  queueName : Str
  messageId : Str
  data : Str
  timestamp : Int
  status : Status
  processingStartedAt : Option Int
deriving DecidableEq

/-- `sequence` is the largest row identifier that was ever assigned. -/
structure Database where
  queueMetadata : List Str
  queueMessages : List MessageRow
  sequence : Nat

namespace Database

/-- The tables that `open` makes in a new file. -/
def empty : Database where
  queueMetadata := []
  queueMessages := []
  sequence := 0

def orderById (rows : List MessageRow) : List MessageRow :=
  rows.mergeSort fun a b => decide (a.id ≤ b.id)

variable (db : Database)

/-- `INSERT OR IGNORE` of one queue name, with the number of changed rows. -/
def insertQueue (name : Str) : Nat × Database :=
  if name ∈ db.queueMetadata then (0, db)
  else (1, { db with queueMetadata := db.queueMetadata ++ [name] })

def insertMessage (queueName messageId data : Str)
    (timestamp : Int) : Database :=
  let row : MessageRow :=
    { id := db.sequence + 1
      queueName := queueName
      messageId := messageId
      data := data
      timestamp := timestamp
      status := .pending
      processingStartedAt := none }
  { db with
    queueMessages := db.queueMessages ++ [row]
    sequence := db.sequence + 1 }

/-- `UPDATE queue_messages SET .. WHERE ..`. -/
def updateMessages (test : MessageRow -> Bool)
    (change : MessageRow -> MessageRow) : Database :=
  { db with
    queueMessages :=
      db.queueMessages.map fun r => if test r then change r else r }

/-- `DELETE FROM queue_messages WHERE ..`, with the number of deleted rows. -/
def deleteMessages (test : MessageRow -> Bool) :
    Nat × Database :=
  (db.queueMessages.countP test,
    { db with queueMessages := db.queueMessages.filter fun r => !test r })

/-- The pending rows of a queue, oldest first. -/
def pendingRows (queueName : Str) : List MessageRow :=
  orderById (db.queueMessages.filter fun r =>
    r.queueName == queueName && r.status == .pending)

/-- The pending and the processing rows of a queue, oldest first. -/
def unackedRows (queueName : Str) : List MessageRow :=
  orderById (db.queueMessages.filter fun r =>
    r.queueName == queueName &&
      (r.status == .pending || r.status == .processing))

end Database

open Database

def MessageRow.recover (r : MessageRow) : MessageRow :=
  { r with status := .pending, processingStartedAt := none }

def MessageRow.markProcessing (startedAt : Int) (r : MessageRow) : MessageRow :=
  { r with status := .processing, processingStartedAt := some startedAt }

/-- `Utc::now().timestamp()`. -/
def utcTimestamp (now : SystemTime) : Int :=
  now / 10 ^ 9

/-!
# Opening the file
-/

/-- The migrations that change a row: queues known from messages only. -/
def runMigrations (db : Database) : Database :=
  (db.queueMessages.map MessageRow.queueName).dedup.foldl
    (fun db name => if name = [] then db else (db.insertQueue name).2) db

def staleRow (staleSec cutoff : Int) (r : MessageRow) : Bool :=
  if staleSec ≤ 0 then
    r.status == .processing
  else
    r.status == .processing &&
      r.processingStartedAt.elim false (fun t => decide (t ≤ cutoff))

def recoverStale (now : SystemTime) (staleSec : Int) (db : Database) :
    Nat × Database :=
  let cutoff := utcTimestamp now - max staleSec 0
  (db.queueMessages.countP (staleRow staleSec cutoff),
    db.updateMessages (staleRow staleSec cutoff) MessageRow.recover)

/-- `open` on a file that has the tables. -/
def openBackend (now : SystemTime) (recoverStaleSec : Int) (db : Database) :
    Database :=
  (recoverStale now recoverStaleSec (runMigrations db)).2

/-!
# Calls
-/

def queueKnown (db : Database) (queueName : Str) : Bool :=
  if db.queueMetadata.count queueName > 0 then true
  else decide (db.queueMessages.countP (fun r => r.queueName == queueName) > 0)

def requireQueueExists (db : Database) (queueName : Str) : Except Error Unit :=
  if queueKnown db queueName then .ok ()
  else .error (queueNotFound queueName)

def createQueue (db : Database) (name : Str) : Except Error Unit × Database :=
  match db.insertQueue name with
  | (0, db) => (.error (queueAlreadyExists name), db)
  | (_, db) => (.ok (), db)

def enqueue (codec : Codec) (db : Database) (queueName : Str) (msg : Message) :
    Except Error Unit × Database :=
  match requireQueueExists db queueName with
  | .error e => (.error e, db)
  | .ok () =>
    (.ok (), db.insertMessage queueName msg.id (encodeMessage codec msg)
      (unixSecs msg.timestamp))

/-- The message is decoded after the transaction has been committed. -/
def dequeue (codec : Codec) (now : SystemTime) (db : Database)
    (queueName : Str) : Except Error (Option Message) × Database :=
  match requireQueueExists db queueName with
  | .error e => (.error e, db)
  | .ok () =>
    match (db.pendingRows queueName).head? with
    | none => (.ok none, db)
    | some row =>
      let db := db.updateMessages (fun r => r.id == row.id)
        (MessageRow.markProcessing (utcTimestamp now))
      match decodeMessage codec now row.data with
      | .error e => (.error e, db)
      | .ok msg => (.ok (some msg), db)

def peek (codec : Codec) (now : SystemTime) (db : Database) (queueName : Str) :
    Except Error (Option Message) := do
  requireQueueExists db queueName
  match (db.pendingRows queueName).head? with
  | none => .ok none
  | some row => (decodeMessage codec now row.data).map some

def size (db : Database) (queueName : Str) : Except Error Nat := do
  requireQueueExists db queueName
  .ok (db.queueMessages.countP fun r =>
    r.queueName == queueName && r.status == .pending)

def listUnacked (codec : Codec) (now : SystemTime) (db : Database)
    (queueName : Str) : Except Error (List Message) := do
  requireQueueExists db queueName
  (db.unackedRows queueName).mapM fun row => decodeMessage codec now row.data

def ack (db : Database) (queueName msgId : Str) :
    Except Error Bool × Database :=
  match requireQueueExists db queueName with
  | .error e => (.error e, db)
  | .ok () =>
    let deleted := db.deleteMessages fun r =>
      r.queueName == queueName && r.messageId == msgId &&
        r.status == .processing
    (.ok (decide (deleted.1 > 0)), deleted.2)

end SQLite

/-!
# Removing and listing a subtree of queues

A queue name is a path with `/` between its parts, and removing a queue removes
the queues below it.  The SQLite backend finds them with a `LIKE` pattern, the
Redis backend compares the start of every registered name.
-/

open Paths Redis Like

/-- The names that are meant: the queue and the queues below it. -/
def InSubtree (name m : Str) : Prop :=
  m = name ∨ name ++ ['/'] <+: m

instance (name m : Str) : Decidable (InSubtree name m) :=
  inferInstanceAs (Decidable (_ ∨ _))

/-!
# The SQLite backend
-/

namespace SQLite

/-- `format!("{}/%", name)`. -/
def subtreePattern (name : Str) : Str :=
  name ++ ['/', '%']

/-- `queue_name = ?1 OR queue_name LIKE ?2`. -/
def subtreeTest (name queueName : Str) : Bool :=
  queueName == name || like (subtreePattern name) queueName

/-- `DELETE FROM queue_metadata WHERE ..`, with the number of deleted rows. -/
def deleteMetadata (db : Database) (test : Str -> Bool) : Nat × Database :=
  (db.queueMetadata.countP test,
    { db with queueMetadata := db.queueMetadata.filter fun m => !test m })

def removeQueue (db : Database) (name : Str) : Except Error Unit × Database :=
  match db.deleteMessages fun r => subtreeTest name r.queueName with
  | (deletedMessages, db) =>
    match deleteMetadata db (subtreeTest name) with
    | (deletedMeta, db) =>
      if deletedMessages = 0 ∧ deletedMeta = 0 then
        (.error (queueNotFound name), db)
      else
        (.ok (), db)

/-- `ORDER BY queue_name`. -/
def orderByName (names : List Str) : List Str :=
  names.mergeSort fun a b => decide (a ≤ b)

def listQueues (db : Database) (namePrefix : Str) : List Str :=
  if namePrefix = [] then orderByName db.queueMetadata
  else orderByName (db.queueMetadata.filter (subtreeTest namePrefix))

end SQLite

/-!
# The Redis backend
-/

namespace RedisQueue

/-- The body of the loop for a queue of the subtree. -/
def removeKeys (queuePrefix queue : Str) : Script Unit := do
  let pending := queuePrefix ++ queue ++ ':' :: pendingText
  let processing := queuePrefix ++ queue ++ ':' :: processingText
  let messagePrefix := queuePrefix ++ queue ++ (':' :: messageText ++ [':'])
  let ids ← lrange pending
  deletePayloads messagePrefix ids
  let members ← zrange processing
  deletePayloads messagePrefix ((members.filterMap splitMember).map Prod.fst)
  delKeys [queuePrefix ++ queue ++ ':' :: metaText, pending, processing]

def inSubtreeTest (name queue : Str) : Bool :=
  queue == name || queue.take (name.length + 1) == name ++ ['/']

def removeQueues (names name queuePrefix : Str) : List Str -> Script Nat
  | [] => return 0
  | queue :: rest =>
    if inSubtreeTest name queue then do
      removeKeys queuePrefix queue
      srem names queue
      let removed ← removeQueues names name queuePrefix rest
      return removed + 1
    else
      removeQueues names name queuePrefix rest

def removeQueueScript (names name queuePrefix : Str) : Script Nat := do
  let queues ← smembers names
  removeQueues names name queuePrefix queues

def removeQueue (keyPrefix name : Str) (ks : Keyspace) :
    Except Error Unit × Keyspace :=
  match removeQueueScript (queueNamesKey keyPrefix) name
      (queueKeyPrefix keyPrefix) ks with
  | (.error e, ks) =>
    (.error (redisError "remove_queue".toList e), ks)
  | (.ok 0, ks) => (.error (queueNotFound name), ks)
  | (.ok _, ks) => (.ok (), ks)

end RedisQueue

end Queue
end OpenViking
