import OpenViking.Common.Redis
import OpenViking.Queue.Message

/-!
# The Redis queue

Any number of `RedisQueueBackend` instances share one server.  The queues live
under string keys, and every call does its work in one Lua script, which the
server runs as one step.
-/

namespace OpenViking
namespace Queue

open Paths Redis

namespace RedisQueue

/-!
# Identifiers
-/

def isUuidChar (c : Char) : Bool :=
  c.isDigit || (decide ('a' ≤ c) && decide (c ≤ 'f'))

def isUuidText (s : Str) : Bool :=
  s.length == 36 && s.zipIdx.all fun c =>
    if c.2 ∈ [8, 13, 18, 23] then c.1 == '-' else isUuidChar c.1

/-- `Uuid::new_v4().to_string()`. -/
structure Uuid where
  text : Str
  shape : isUuidText text = true
deriving DecidableEq

/-!
# Keys
-/

def namesText : Str := ['n', 'a', 'm', 'e', 's']
def metaText : Str := ['m', 'e', 't', 'a']
def pendingText : Str := ['p', 'e', 'n', 'd', 'i', 'n', 'g']
def processingText : Str := ['p', 'r', 'o', 'c', 'e', 's', 's', 'i', 'n', 'g']
def messageText : Str := ['m', 's', 'g']
def aliveText : Str := ['a', 'l', 'i', 'v', 'e']
def instanceText : Str := ['i', 'n', 's', 't', 'a', 'n', 'c', 'e']

variable (keyPrefix : Str)

def queueKeyPrefix : Str :=
  "\x7b".toList ++ keyPrefix ++ "\x7d:ov:queue:".toList

def queueNamesKey : Str :=
  queueKeyPrefix keyPrefix ++ namesText

def instanceKeyPrefix : Str :=
  queueKeyPrefix keyPrefix ++ (instanceText ++ [':'])

/-- The liveness key of an instance under the given prefix. -/
def aliveKey (instancePrefix instanceId : Str) : Str :=
  instancePrefix ++ instanceId ++ ':' :: aliveText

def heartbeatKey (keyPrefix instanceId : Str) : Str :=
  aliveKey (instanceKeyPrefix keyPrefix) instanceId

structure QueueKeys where
  metadata : Str
  pending : Str
  processing : Str
  messagePrefix : Str

namespace QueueKeys

def new (keyPrefix queue : Str) : QueueKeys where
  metadata := queueKeyPrefix keyPrefix ++ queue ++ ':' :: metaText
  pending := queueKeyPrefix keyPrefix ++ queue ++ ':' :: pendingText
  processing := queueKeyPrefix keyPrefix ++ queue ++ ':' :: processingText
  messagePrefix :=
    queueKeyPrefix keyPrefix ++ queue ++ (':' :: messageText ++ [':'])

def message (keys : QueueKeys) (messageId : Str) : Str :=
  keys.messagePrefix ++ messageId

end QueueKeys

/-!
# Scripts
-/

/-- The member of the processing set for a message that an instance holds. -/
def processingMember (id instanceId : Str) : Str :=
  id ++ '|' :: instanceId

/-- A member split at its first separator. -/
def splitMember (member : Str) : Option (Str × Str) :=
  if '|' ∈ member then
    some (member.takeWhile fun c => c != '|',
      (member.dropWhile fun c => c != '|').tail)
  else
    none

def missingPayload (id : Str) : Str :=
  "queuefs payload missing for message ".toList ++ id

def createQueueScript (names metadata name now : Str) : Script Nat := do
  if (← sadd names name) = 0 then
    return 0
  hset metadata "created_at".toList now
  hset metadata "last_updated".toList now
  return 1

def enqueueScript (names message pending metadata : Str)
    (queue id payload now : Str) : Script Nat := do
  if (← sismember names queue) = false then
    return 0
  Redis.set message payload
  rpush pending id
  hset metadata "last_updated".toList now
  return 1

def dequeueScript (pending processing : Str)
    (messagePrefix instanceId : Str) (now : Int) :
    Script (Option (Str × Str)) := do
  match ← lpop pending with
  | none => return none
  | some id =>
    match ← get (messagePrefix ++ id) with
    | none =>
      lpush pending id
      Script.fail (missingPayload id)
    | some payload =>
      zadd processing now (processingMember id instanceId)
      return some (id, payload)

def ackMembers (processing message : Str) (msgId : Str) :
    List Str -> Script Bool
  | [] => return false
  | member :: rest =>
    if member.take (msgId.length + 1) = msgId ++ ['|'] then do
      zrem processing member
      del message
      return true
    else
      ackMembers processing message msgId rest

def ackScript (processing message : Str) (msgId : Str) : Script Bool := do
  let members ← zrange processing
  ackMembers processing message msgId members

def deletePayloads (messagePrefix : Str) : List Str -> Script Unit
  | [] => return ()
  | id :: rest => do
      del (messagePrefix ++ id)
      deletePayloads messagePrefix rest

def clearScript (pending processing : Str) (messagePrefix : Str) :
    Script Nat := do
  let ids ← lrange pending
  deletePayloads messagePrefix ids
  let members ← zrange processing
  deletePayloads messagePrefix ((members.filterMap splitMember).map Prod.fst)
  del pending
  del processing
  return ids.length + members.length

def recoverMembers (processing pending : Str) (instancePrefix : Str) :
    List Str -> Script Nat
  | [] => return 0
  | member :: rest =>
    match splitMember member with
    | none => recoverMembers processing pending instancePrefix rest
    | some (id, instanceId) => do
        if ← existsKey (aliveKey instancePrefix instanceId) then
          recoverMembers processing pending instancePrefix rest
        else do
          zrem processing member
          rpush pending id
          let recovered ←
            recoverMembers processing pending instancePrefix rest
          return recovered + 1

def recoverStaleScript (processing pending : Str) (instancePrefix : Str) :
    Script Nat := do
  let members ← zrange processing
  recoverMembers processing pending instancePrefix members

/-!
# Calls

`dequeue`, `ack` and `clear` first ask with `SISMEMBER` whether the queue is
registered.  The script of a call that has passed this check may run in any
later keyspace, so the check is a step of its own and the script another.
-/

def redisError (operation message : Str) : Error :=
  Error.internal ("redis ".toList ++ operation ++ " error: ".toList ++ message)

def secsText (now : SystemTime) : Str :=
  (toString (unixSecs now)).toList

def createQueue (now : SystemTime) (name : Str)
    (ks : Keyspace) : Except Error Unit × Keyspace :=
  match createQueueScript (queueNamesKey keyPrefix)
      (QueueKeys.new keyPrefix name).metadata name (secsText now) ks with
  | (.error e, ks) =>
    (.error (redisError "create_queue".toList e), ks)
  | (.ok 0, ks) => (.error (queueAlreadyExists name), ks)
  | (.ok _, ks) => (.ok (), ks)

/-- The script of `enqueue`. -/
def enqueueCall (now : SystemTime)
    (queue id payload : Str) : Script Nat :=
  let keys := QueueKeys.new keyPrefix queue
  enqueueScript (queueNamesKey keyPrefix) (keys.message id) keys.pending
    keys.metadata queue id payload (secsText now)

def enqueue (codec : Codec) (keyPrefix : Str) (now : SystemTime)
    (queue : Str) (msg : Message) (ks : Keyspace) :
    Except Error Unit × Keyspace :=
  match enqueueCall keyPrefix now queue msg.id (encodeMessage codec msg) ks with
  | (.error e, ks) => (.error (redisError "enqueue".toList e), ks)
  | (.ok 0, ks) => (.error (queueNotFound queue), ks)
  | (.ok _, ks) => (.ok (), ks)

/-- The script of `dequeue`: the identifier and the payload. -/
def dequeueCall (now : SystemTime) (instanceId : Uuid)
    (queue : Str) : Script (Option (Str × Str)) :=
  let keys := QueueKeys.new keyPrefix queue
  dequeueScript keys.pending keys.processing keys.messagePrefix
    instanceId.text (unixSecs now)

def ackCall (keyPrefix queue msgId : Str) : Script Bool :=
  let keys := QueueKeys.new keyPrefix queue
  ackScript keys.processing (keys.message msgId) msgId

def clearCall (keyPrefix queue : Str) : Script Nat :=
  let keys := QueueKeys.new keyPrefix queue
  clearScript keys.pending keys.processing keys.messagePrefix

def recoverStaleCall (keyPrefix queue : Str) : Script Nat :=
  let keys := QueueKeys.new keyPrefix queue
  recoverStaleScript keys.processing keys.pending
    (instanceKeyPrefix keyPrefix)

end RedisQueue

end Queue
end OpenViking
