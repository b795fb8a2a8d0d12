import OpenViking.Access.Namespace
import OpenViking.Common.Interleaving
import Mathlib.Logic.Function.Basic

/-!
# Replaying a native log

A harness writes one conversation to an append-only log of lines, and the replay sends
its messages to one OpenViking session.
-/

namespace OpenViking
namespace Ingest

open Function List

open Paths (Str)
open Access (CharClass stripSpace normalizePeerId)

/-!
# Messages
-/

inductive Role where
  | user
  | assistant
  | other (name : Str)
deriving DecidableEq

inductive Part where
  | text (text : Str)
  | extra (json : Str)
deriving DecidableEq

structure NormalizedMessage where
  role : Role
  text : Str
  parts : List Part
  createdAt : Option Str
  peerId : Option Str
deriving DecidableEq

structure AddMessageRequest where
  role : Role
  parts : List Part
  content : Option Str
  createdAt : Option Str
  peerId : Option Str
deriving DecidableEq

/-- An empty value counts as none. -/
def nonEmpty? (value : Option Str) : Option Str :=
  value.filter (fun text => decide (text ≠ []))

variable (cc : CharClass)

def safePeerId (peerId : Option Str) : Option Str :=
  match peerId with
  | none => none
  | some peer =>
    match normalizePeerId cc peer with
    | .error _ => none
    | .ok normalized => normalized

/-- The request for one message, and none for an empty turn. -/
def toAddMessageRequest (msg : NormalizedMessage) :
    Option AddMessageRequest :=
  let text := stripSpace cc msg.text
  let parts := (if text = [] then [] else [Part.text text]) ++ msg.parts
  if parts = [] then none
  else
    some
      { role := if msg.role = .user then .user else .assistant
        parts := parts
        content := nonEmpty? (some text)
        createdAt := nonEmpty? msg.createdAt
        peerId := nonEmpty? (safePeerId cc msg.peerId) }

def toAddMessageRequests (messages : List NormalizedMessage) :
    List AddMessageRequest :=
  messages.filterMap (toAddMessageRequest cc)

/-!
# Session ids
-/

def sidAllowed (c : Char) : Bool :=
  c.isAlphanum || c == '_' || c == '.' || c == '@' || c == '-'

def collapseDashes : Str -> Str
  | [] => []
  | c :: rest =>
    if c = '-' ∧ rest.head? = some '-' then collapseDashes rest
    else c :: collapseDashes rest

def trimmed (c : Char) : Bool :=
  c == '-' || c == '.'

def sanitizeId (value : Str) : Str :=
  let cleaned := (stripSpace cc value).map (fun c => if sidAllowed c then c else '-')
  let sanitized := ((collapseDashes cleaned).dropWhile trimmed).rdropWhile trimmed
  if sanitized = [] then "unknown".toList else sanitized

/-- A conversation is named by its harness and the harness's own id. -/
structure NativeId where
  harness : Str
  nativeSessionId : Str
deriving DecidableEq

def ovSessionId (sessionIdPrefix : Str) (session : NativeId) : Str :=
  sanitizeId cc sessionIdPrefix ++ "__".toList ++ sanitizeId cc session.harness
    ++ "__".toList ++ sanitizeId cc session.nativeSessionId

/-!
# Reading the log

A line holds the messages its record parses to.  The cursor counts the lines consumed.
-/

abbrev Line : Type := List NormalizedMessage

def defaultReadLimit : Nat := 100

/-- The messages of the next lines and the number of these lines: reading stops after
the line that reaches the limit. -/
def readMessages : Nat -> List Line -> List NormalizedMessage × Nat
  | _, [] => ([], 0)
  | limit, line :: rest =>
    if limit ≤ line.length then (line, 1)
    else
      let further := readMessages (limit - line.length) rest
      (line ++ further.1, further.2 + 1)

theorem readMessages_count_le (limit : Nat) (lines : List Line) :
    (readMessages limit lines).2 ≤ lines.length := by
  induction lines generalizing limit with
  | nil => exact Nat.le_refl 0
  | cons line rest ih =>
    rw [readMessages]
    split
    · exact Nat.succ_le_succ (Nat.zero_le _)
    · exact Nat.succ_le_succ (ih _)

theorem readMessages_messages (limit : Nat) (lines : List Line) :
    (readMessages limit lines).1 =
      (lines.take (readMessages limit lines).2).flatten := by
  induction lines generalizing limit with
  | nil => rfl
  | cons line rest ih =>
    rw [readMessages]
    split
    · rw [take_succ_cons, take_zero, flatten_cons, flatten_nil,
        append_nil]
    · dsimp only
      rw [take_succ_cons, flatten_cons, ← ih]

theorem readMessages_count_append (limit : Nat) (lines more : List Line) :
    (readMessages limit lines).2 ≤ (readMessages limit (lines ++ more)).2 := by
  induction lines generalizing limit with
  | nil => exact Nat.zero_le _
  | cons line rest ih =>
    rw [cons_append, readMessages, readMessages]
    split
    · exact Nat.le_refl 1
    · exact Nat.succ_le_succ (ih _)

variable {lines : List Line}

theorem readMessages_all_of_nil {limit : Nat} (hlimit : 0 < limit)
    (h : (readMessages limit lines).1 = []) :
    (readMessages limit lines).2 = lines.length := by
  induction lines generalizing limit with
  | nil => rfl
  | cons line rest ih =>
    rw [readMessages] at h ⊢
    split at h
    · rename_i hle
      have hline : line = [] := h
      rw [hline] at hle
      exact absurd hle (Nat.not_le.mpr hlimit)
    · rename_i hlt
      have hparts := append_eq_nil_iff.mp h
      rw [if_neg hlt]
      have hrest := ih (by omega) hparts.2
      dsimp only
      rw [hrest, length_cons]

theorem readMessages_count_pos (limit : Nat) (h : lines ≠ []) :
    0 < (readMessages limit lines).2 := by
  cases lines with
  | nil => exact absurd rfl h
  | cons line rest =>
    rw [readMessages]
    split
    · exact Nat.zero_lt_one
    · exact Nat.succ_pos _

/-!
# What a part of the log sends
-/

def payloadsOf (lines : List Line) : List AddMessageRequest :=
  toAddMessageRequests cc lines.flatten

theorem payloadsOf_append (lines more : List Line) :
    payloadsOf cc (lines ++ more) = payloadsOf cc lines ++ payloadsOf cc more := by
  rw [payloadsOf, flatten_append, toAddMessageRequests, filterMap_append]
  rfl

/-- How much of what a log sends its first lines send. -/
def sentBy (lines : List Line) (cursor : Nat) : Nat :=
  (payloadsOf cc (lines.take cursor)).length

theorem payloadsOf_take (lines : List Line) (cursor : Nat) :
    payloadsOf cc (lines.take cursor) =
      (payloadsOf cc lines).take (sentBy cc lines cursor) := by
  have hsplit := payloadsOf_append cc (lines.take cursor) (lines.drop cursor)
  rw [take_append_drop] at hsplit
  rw [hsplit, sentBy, take_left]

theorem payloadsOf_between (start count : Nat) :
    payloadsOf cc (lines.take (start + count)) =
      payloadsOf cc (lines.take start)
        ++ payloadsOf cc ((lines.drop start).take count) := by
  rw [take_add, payloadsOf_append]

theorem sentBy_add (lines : List Line) (start count : Nat) :
    sentBy cc lines (start + count) =
      sentBy cc lines start
        + (payloadsOf cc ((lines.drop start).take count)).length := by
  rw [sentBy, payloadsOf_between, length_append]
  rfl

theorem sentBy_mono (lines : List Line) {first second : Nat}
    (h : first ≤ second) : sentBy cc lines first ≤ sentBy cc lines second := by
  obtain ⟨count, heq⟩ := Nat.exists_eq_add_of_le h
  rw [heq, sentBy_add]
  exact Nat.le_add_right _ _

theorem sentBy_le (lines : List Line) (cursor : Nat) :
    sentBy cc lines cursor ≤ (payloadsOf cc lines).length := by
  have htake := congrArg length (payloadsOf_take cc lines cursor)
  rw [length_take] at htake
  rw [sentBy, htake]
  exact Nat.min_le_right _ _

theorem sentBy_append (more : List Line)
    {cursor : Nat} (h : cursor ≤ lines.length) :
    sentBy cc (lines ++ more) cursor = sentBy cc lines cursor := by
  rw [sentBy, take_append_of_le_length h]
  rfl

/-!
# The poll loop

One ingest process polls the native sessions one after another.  Native logs grow and
the server commits sessions at any moment, and every awaited call can fail.
-/

open Access (CharClass)

/-!
# The cursor store
-/

/-- The intent of a batch, saved before the batch is appended. -/
structure PendingBatch where
  cursor : Nat
  count : Nat
  baseline : Nat
deriving DecidableEq

structure CursorRecord where
  cursor : Nat
  lastAppendedCount : Nat
  needsCommit : Bool
  pending : Option PendingBatch
deriving DecidableEq

/-- What a session without a row reads as. -/
def CursorRecord.zero : CursorRecord :=
  { cursor := 0, lastAppendedCount := 0, needsCommit := false, pending := none }

variable (record : CursorRecord)

def CursorRecord.advanceCursor (cursor : Nat) : CursorRecord :=
  { record with cursor := cursor }

def CursorRecord.setPending (batch : PendingBatch) :
    CursorRecord :=
  { record with pending := some batch }

def CursorRecord.confirmAppend (cursor appendedDelta : Nat) :
    CursorRecord :=
  { cursor := cursor
    lastAppendedCount := record.lastAppendedCount + appendedDelta
    needsCommit := true
    pending := none }

def CursorRecord.clearPending : CursorRecord :=
  { record with pending := none }

def CursorRecord.markCommitted : CursorRecord :=
  { record with needsCommit := false }

/-!
# The server
-/

structure OvSession where
  committed : List AddMessageRequest
  live : List AddMessageRequest
deriving DecidableEq

def OvSession.empty : OvSession :=
  { committed := [], live := [] }

/-- All messages the session was sent, in the order they landed. -/
def OvSession.received (session : OvSession) : List AddMessageRequest :=
  session.committed ++ session.live

def OvSession.append (session : OvSession) (chunk : List AddMessageRequest) :
    OvSession :=
  { session with live := session.live ++ chunk }

/-- A commit archives all but the most recent live messages. -/
def OvSession.commit (session : OvSession) (keepRecentCount : Nat) : OvSession :=
  let archived := session.live.length - keepRecentCount
  { committed := session.committed ++ session.live.take archived
    live := session.live.drop archived }

/-!
# The process
-/

structure IngestConfig where
  cc : CharClass
  sessionIdPrefix : Str
  commitTokenThreshold : Nat
  keepRecentCount : Nat

def IngestConfig.ovSession (config : IngestConfig) (session : NativeId) : Str :=
  ovSessionId config.cc config.sessionIdPrefix session

/-- The server's cap for one request. -/
def batchLimit : Nat := 100

/-- Where the process is: the next call it makes. -/
inductive Phase where
  | idle
  | reading (session : NativeId) (appended : Bool)
  | ensuring (session : NativeId) (payloads : List AddMessageRequest) (newCursor : Nat)
  | counted (session : NativeId) (payloads : List AddMessageRequest)
      (newCursor baseline : Nat)
  | sending (session : NativeId) (payloads : List AddMessageRequest)
      (newCursor sent : Nat)
  | polled (session : NativeId)
  | committing (session : NativeId)
  | marking (session : NativeId)
deriving DecidableEq

/-- `landed`, `shrunk` and `appenders` are not state of the code: how much of the
session's saved batch has landed, whether the server has archived messages since the
session's last baseline, and which sessions have had messages appended. -/
structure World where
  logs : NativeId -> List Line
  records : NativeId -> CursorRecord
  sessions : Str -> OvSession
  dirty : List NativeId
  phase : Phase
  landed : NativeId -> Nat
  shrunk : NativeId -> Bool
  appenders : List NativeId

def World.start (logs : NativeId -> List Line) : World :=
  { logs := logs
    records := fun _ => .zero
    sessions := fun _ => .empty
    dirty := []
    phase := .idle
    landed := fun _ => 0
    shrunk := fun _ => false
    appenders := [] }

inductive CommitFate where
  | done
  | responseLost
  | failed
deriving DecidableEq

/-- The calls of the process with their answers, its failures, and what the others
do. -/
inductive Label where
  | grow (session : NativeId) (line : Line)
  | serverCommit (ov : Str) (keepRecentCount : Nat)
  | poll (session : NativeId) (readOk : Bool)
  | readLog
  | countBaseline
  | savePending
  | append (landed : Nat) (ok : Bool)
  | confirm
  | threshold (pendingTokens : Nat)
  | idleCommit (session : NativeId) (pendingTokens : Nat)
  | commit (fate : CommitFate)
  | mark
  | raise
  | crash
deriving DecidableEq

namespace World

variable (config : IngestConfig)

variable (world : World)

def ovOf (session : NativeId) : OvSession :=
  world.sessions (config.ovSession session)

def setRecord (session : NativeId) (record : CursorRecord) : World :=
  { world with records := update world.records session record }

def setPhase (phase : Phase) : World :=
  { world with phase := phase }

/-- The commit of a session by anyone. -/
def commitOv (ov : Str) (keepRecentCount : Nat) : World :=
  { world with
    sessions := update world.sessions ov
      ((world.sessions ov).commit keepRecentCount)
    shrunk := fun session =>
      world.shrunk session ||
        decide (config.ovSession session = ov ∧
          keepRecentCount < (world.sessions ov).live.length) }

/-- The saved batch is settled, with the record it leaves. -/
def settle (session : NativeId) (record : CursorRecord) : World :=
  { world.setRecord session record with
    landed := update world.landed session 0 }

/-- The intent that a failure left is resolved before the next read. -/
def reconcile (session : NativeId) (readOk : Bool) : World :=
  match (world.records session).pending, readOk with
  | none, _ => world
  | some _, false => world
  | some batch, true =>
    if batch.baseline + batch.count ≤ (world.ovOf config session).live.length then
      world.settle session
        ((world.records session).confirmAppend batch.cursor batch.count)
    else world.settle session (world.records session).clearPending

/-- The end of the read loop: a session with work to commit becomes dirty. -/
def endPoll (session : NativeId) (appended : Bool) : World :=
  if appended || (world.records session).needsCommit then
    { world with dirty := session :: world.dirty, phase := .polled session }
  else world.setPhase .idle

/-- One round of the read loop, up to the first call of the server. -/
def readLog (session : NativeId) (appended : Bool) : World :=
  let record := world.records session
  let further :=
    readMessages defaultReadLimit ((world.logs session).drop record.cursor)
  let newCursor := record.cursor + further.2
  if further.1 = [] then
    (world.setRecord session (record.advanceCursor newCursor)).endPoll session appended
  else
    let payloads := toAddMessageRequests config.cc further.1
    if payloads = [] then world.setRecord session (record.advanceCursor newCursor)
    else world.setPhase (.ensuring session payloads newCursor)

def countBaseline (session : NativeId)
    (payloads : List AddMessageRequest) (newCursor : Nat) : World :=
  { world with
    phase := .counted session payloads newCursor (world.ovOf config session).live.length
    shrunk := update world.shrunk session false }

def savePending (session : NativeId)
    (payloads : List AddMessageRequest) (newCursor baseline : Nat) : World :=
  (world.setRecord session
    ((world.records session).setPending
      { cursor := newCursor, count := payloads.length, baseline := baseline })).setPhase
    (.sending session payloads newCursor 0)

/-- The messages of one request that land, in order, from the first. -/
def land (session : NativeId) (chunk : List AddMessageRequest) : World :=
  { world with
    sessions := update world.sessions (config.ovSession session)
      ((world.ovOf config session).append chunk)
    landed := update world.landed session
      (world.landed session + chunk.length)
    appenders := if chunk = [] then world.appenders else session :: world.appenders }

/-- One request of the append: all of it lands when the answer comes. -/
def append (session : NativeId) (payloads : List AddMessageRequest)
    (newCursor sent landed : Nat) (ok : Bool) : Option World :=
  let chunk := (payloads.drop sent).take batchLimit
  if chunk = [] ∨ chunk.length < landed then none
  else if ok then
    if landed = chunk.length then
      some ((world.land config session chunk).setPhase
        (.sending session payloads newCursor (sent + chunk.length)))
    else none
  else some ((world.land config session (chunk.take landed)).setPhase .idle)

def confirm (session : NativeId) (payloads : List AddMessageRequest)
    (newCursor : Nat) : World :=
  (world.settle session
    ((world.records session).confirmAppend newCursor payloads.length)).setPhase
    (.reading session true)

def forgetDirty (session : NativeId) : World :=
  { world with dirty := world.dirty.filter (fun other => decide (other ≠ session)) }

/-- What is committed when a session is idle or the process stops. -/
def commitIfNeeded (session : NativeId) (pendingTokens : Nat) : World :=
  if pendingTokens = 0 then
    if (world.records session).needsCommit then world.setPhase (.marking session)
    else world.forgetDirty session
  else world.setPhase (.committing session)

def commit (session : NativeId) : CommitFate -> World
  | .done =>
    (world.commitOv config (config.ovSession session) config.keepRecentCount).setPhase
      (.marking session)
  | .responseLost =>
    (world.commitOv config (config.ovSession session) config.keepRecentCount).setPhase
      .idle
  | .failed => world.setPhase .idle

def mark (session : NativeId) : World :=
  ((world.setRecord session (world.records session).markCommitted).forgetDirty
    session).setPhase .idle

end World

def step (config : IngestConfig) (world : World) : Label -> Option World
  | .grow session line =>
    some
      { world with
        logs := update world.logs session (world.logs session ++ [line]) }
  | .serverCommit ov keepRecentCount => some (world.commitOv config ov keepRecentCount)
  | .poll session readOk =>
    if world.phase = .idle then
      some ((world.reconcile config session readOk).setPhase (.reading session false))
    else none
  | .readLog =>
    match world.phase with
    | .reading session appended => some (world.readLog config session appended)
    | _ => none
  | .countBaseline =>
    match world.phase with
    | .ensuring session payloads newCursor =>
      some (world.countBaseline config session payloads newCursor)
    | _ => none
  | .savePending =>
    match world.phase with
    | .counted session payloads newCursor baseline =>
      some (world.savePending session payloads newCursor baseline)
    | _ => none
  | .append landed ok =>
    match world.phase with
    | .sending session payloads newCursor sent =>
      world.append config session payloads newCursor sent landed ok
    | _ => none
  | .confirm =>
    match world.phase with
    | .sending session payloads newCursor sent =>
      if sent = payloads.length then
        some (world.confirm session payloads newCursor)
      else none
    | _ => none
  | .threshold pendingTokens =>
    match world.phase with
    | .polled session =>
      if pendingTokens < config.commitTokenThreshold then
        some (world.setPhase .idle)
      else some (world.setPhase (.committing session))
    | _ => none
  | .idleCommit session pendingTokens =>
    if world.phase = .idle ∧ session ∈ world.dirty then
      some (world.commitIfNeeded session pendingTokens)
    else none
  | .commit fate =>
    match world.phase with
    | .committing session => some (world.commit config session fate)
    | _ => none
  | .mark =>
    match world.phase with
    | .marking session => some (world.mark session)
    | _ => none
  | .raise =>
    if world.phase = .idle then none else some (world.setPhase .idle)
  | .crash => some { world with dirty := [], phase := .idle }

end Ingest
end OpenViking
