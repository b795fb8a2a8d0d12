import OpenViking.Common.Path

/-!
# Queue messages

A queue backend stores a message as the JSON text of a `StoredMessage`.  The
text itself is written and read by `serde_json`; the model keeps the text and
the JSON value apart, so that the field decoders of the program work on values.
-/

namespace OpenViking
namespace Queue

open Paths

abbrev Bytes := List UInt8

/-- Nanoseconds since the Unix epoch. -/
abbrev SystemTime := Int

structure Message where
  id : Str
  data : Bytes
  timestamp : SystemTime
deriving DecidableEq

/-!
# JSON values
-/

inductive Number where
  | int (n : Int)
  | float (text : Str)
deriving DecidableEq

namespace Number

def asU64 : Number -> Option Nat
  | int n => if 0 ≤ n ∧ n < 2 ^ 64 then some n.toNat else none
  | float _ => none

def asI64 : Number -> Option Int
  | int n => if -2 ^ 63 ≤ n ∧ n < 2 ^ 63 then some n else none
  | float _ => none

end Number

inductive Value where
  | null
  | bool (b : Bool)
  | number (n : Number)
  | string (s : Str)
  | array (values : List Value)
  | object (fields : List (Str × Value))

/-- Why a stored text is not a message. -/
inductive DecodeError where
  | syntaxError (message : Str)
  | missingField (field : Str)
  | duplicateField (field : Str)
  | invalidType (field : Str)
  | byteOutOfRange
  | notStringOrBytes (other : Value)

inductive Error where
  | notFound (message : Str)
  | alreadyExists (message : Str)
  | serialization (error : DecodeError)
  | internal (message : Str)

def queueNotFound (name : Str) : Error :=
  .notFound ("queue '".toList ++ name ++ "' not found".toList)

def queueAlreadyExists (name : Str) : Error :=
  .alreadyExists ("queue '".toList ++ name ++ "' already exists".toList)

/-!
# Stored messages
-/

structure StoredMessage where
  id : Str
  data : Bytes
  timestamp : Option Value

/-- What the program takes from other crates: the text of a JSON value, the
value of a JSON text, the seconds of an RFC 3339 time and the UTF-8 bytes of a
string. -/
structure Codec where
  toString : Value -> Str
  fromStr : Str -> Except Str Value
  parseRfc3339 : Str -> Option Int
  utf8 : Str -> Bytes

/-- The whole seconds of a time, zero before the epoch. -/
def unixSecs (time : SystemTime) : Int :=
  if time < 0 then 0 else time / 10 ^ 9

/-- A time at a number of whole seconds, the epoch for a negative number. -/
def fromUnixSecs (secs : Int) : SystemTime :=
  (if secs ≤ 0 then 0 else secs) * 10 ^ 9

variable (codec : Codec)

def parseStoredTimestamp (now : SystemTime) :
    Option Value -> SystemTime
  | some (.string ts) => (codec.parseRfc3339 ts).elim now fromUnixSecs
  | some (.number num) => num.asI64.elim now fromUnixSecs
  | _ => now

/-- One element of a stored byte array. -/
def storedByte : Value -> Except DecodeError UInt8
  | .number num =>
    match num.asU64 with
    | some value =>
      if value < 256 then .ok (UInt8.ofNat value)
      else .error .byteOutOfRange
    | none => .error .byteOutOfRange
  | _ => .error .byteOutOfRange

/-- Old rows hold the message as a string, new ones as a byte array. -/
def deserializeStoredMessageData :
    Value -> Except DecodeError Bytes
  | .string data => .ok (codec.utf8 data)
  | .array bytes => bytes.mapM storedByte
  | other => .error (.notStringOrBytes other)

/-- How `serde` writes one byte of the data. -/
def byteValue (b : UInt8) : Value :=
  .number (.int b.toNat)

def idField : Str := "id".toList
def dataField : Str := "data".toList
def timestampField : Str := "timestamp".toList

/-- The value of a field that may occur once. -/
def field (fields : List (Str × Value)) (name : Str) :
    Except DecodeError (Option Value) :=
  match (fields.filter fun f => f.1 == name) with
  | [] => .ok none
  | [f] => .ok (some f.2)
  | _ => .error (.duplicateField name)

def requiredField (fields : List (Str × Value)) (name : Str) :
    Except DecodeError Value := do
  match ← field fields name with
  | some value => .ok value
  | none => .error (.missingField name)

/-- A missing `timestamp` and a null one are both read as none. -/
def optionalValue : Option Value -> Option Value
  | some .null => none
  | other => other

def stringValue (name : Str) : Value -> Except DecodeError Str
  | .string s => .ok s
  | _ => .error (.invalidType name)

namespace StoredMessage

def fromMessage (msg : Message) : StoredMessage where
  id := msg.id
  data := msg.data
  timestamp := some (.number (.int (unixSecs msg.timestamp)))

def intoMessage (codec : Codec) (now : SystemTime) (stored : StoredMessage) :
    Message where
  id := stored.id
  data := stored.data
  timestamp := parseStoredTimestamp codec now stored.timestamp

def serialize (stored : StoredMessage) : Value :=
  .object
    [(idField, .string stored.id),
     (dataField, .array (stored.data.map byteValue)),
     (timestampField, stored.timestamp.getD .null)]

def deserialize (codec : Codec) : Value -> Except DecodeError StoredMessage
  | .object fields => do
      let id ← stringValue idField (← requiredField fields idField)
      let data ← deserializeStoredMessageData codec
        (← requiredField fields dataField)
      let timestamp ← field fields timestampField
      .ok ⟨id, data, optionalValue timestamp⟩
  | .array (id :: data :: rest) => do
      let id ← stringValue idField id
      let data ← deserializeStoredMessageData codec data
      match rest with
      | [] => .ok ⟨id, data, none⟩
      | [timestamp] => .ok ⟨id, data, optionalValue (some timestamp)⟩
      | _ => .error (.syntaxError "trailing".toList)
  | _ => .error (.invalidType [])

end StoredMessage

def encodeMessage (msg : Message) : Str :=
  codec.toString (StoredMessage.fromMessage msg).serialize

def decodeMessage (now : SystemTime) (text : Str) :
    Except Error Message :=
  match codec.fromStr text with
  | .error message =>
    .error (.serialization (.syntaxError message))
  | .ok value =>
    match StoredMessage.deserialize codec value with
    | .error e => .error (.serialization e)
    | .ok stored => .ok (stored.intoMessage codec now)

/-!
# The round trip of a stored message

The text of a message read back by `serde_json` is its value, and decoding that
value gives the identifier and the bytes of the message.
-/

/-- `serde_json` reads the text it wrote for this message. -/
def Codec.Lossless (msg : Message) : Prop :=
  codec.fromStr (encodeMessage codec msg) =
    .ok (StoredMessage.fromMessage msg).serialize

/-- The part of a message that no store may change. -/
def Message.content (msg : Message) : Str × Bytes :=
  (msg.id, msg.data)

@[simp] theorem storedByte_byteValue (b : UInt8) :
    storedByte (byteValue b) = .ok b := by
  have hlt : b.toNat < 256 := b.toNat_lt
  have hasU64 : (Number.int (b.toNat : Int)).asU64 = some b.toNat := by
    rw [Number.asU64, if_pos (by omega)]
    rfl
  rw [byteValue, storedByte, hasU64]
  show (if b.toNat < 256 then _ else _) = _
  rw [if_pos hlt, UInt8.ofNat_toNat]

theorem mapM_storedByte (data : Bytes) :
    (data.map byteValue).mapM storedByte = .ok data := by
  induction data with
  | nil => rfl
  | cons b rest ih =>
    rw [List.map_cons, List.mapM_cons, storedByte_byteValue, ih]
    rfl

theorem deserialize_serialize (msg : Message) : StoredMessage.deserialize codec
        (StoredMessage.fromMessage msg).serialize =
      .ok (StoredMessage.fromMessage msg) := by
  have hdata : deserializeStoredMessageData codec
      (.array (msg.data.map byteValue)) = .ok msg.data :=
    mapM_storedByte msg.data
  show (do
    let data ← deserializeStoredMessageData codec
      (.array (msg.data.map byteValue))
    .ok (StoredMessage.mk msg.id data
      (some (.number (.int (unixSecs msg.timestamp)))))) = _
  rw [hdata]
  rfl

theorem decodeMessage_encodeMessage {codec : Codec} {msg : Message}
    (h : codec.Lossless msg) (now : SystemTime) :
    decodeMessage codec now (encodeMessage codec msg) =
      Except.ok ((StoredMessage.fromMessage msg).intoMessage codec now) := by
  rw [decodeMessage, h]
  show (match StoredMessage.deserialize codec
    (StoredMessage.fromMessage msg).serialize with
    | Except.error e => Except.error (Error.serialization e)
    | Except.ok stored => Except.ok (stored.intoMessage codec now)) = _
  rw [deserialize_serialize]

@[simp] theorem content_intoMessage (msg : Message) (now : SystemTime) :
    ((StoredMessage.fromMessage msg).intoMessage codec now).content =
      msg.content :=
  rfl

end Queue
end OpenViking
