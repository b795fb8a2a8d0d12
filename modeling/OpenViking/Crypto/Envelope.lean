import OpenViking.Common.Decimal
import OpenViking.Common.Words

/-!
# Encryption envelopes

An envelope is a header of twelve bytes, three parts whose lengths stand in the
header, and the encrypted content.  It is written and read by two programs, one
in Rust and one in Python.
-/

namespace OpenViking
namespace Crypto

open Paths
open Words

/-- `OVE1`. -/
def magic : List UInt8 :=
  [0x4F, 0x56, 0x45, 0x31]

def version : UInt8 :=
  0x01

def headerSize : Nat :=
  12

/-- The parts of an envelope.  The provider type is a byte in Rust and an
integer in Python. -/
structure Envelope (P : Type) where
  providerType : P
  encryptedFileKey : List UInt8
  keyIv : List UInt8
  dataIv : List UInt8
  encryptedContent : List UInt8
deriving DecidableEq

namespace Envelope

def toPython (parts : Envelope UInt8) : Envelope Int :=
  { providerType := (parts.providerType.toNat : Int)
    encryptedFileKey := parts.encryptedFileKey
    keyIv := parts.keyIv
    dataIv := parts.dataIv
    encryptedContent := parts.encryptedContent }

end Envelope

/-!
# The Rust codec
-/

namespace Rust

inductive Failure where
  | internal (message : Str)
  /-- The panic of an index or a range that leaves the data. -/
  | outOfBounds
deriving DecidableEq

/-- `data[i]`. -/
def index (data : List UInt8) (i : Nat) : Except Failure UInt8 :=
  match data[i]? with
  | some b => .ok b
  | none => .error .outOfBounds

/-- `data[start..stop]`. -/
def slice (data : List UInt8) (start stop : Nat) :
    Except Failure (List UInt8) :=
  if start ≤ stop ∧ stop ≤ data.length then
    .ok ((data.take stop).drop start)
  else
    .error .outOfBounds

/-- The lengths are narrowed to sixteen bits. -/
def buildEnvelope (providerType : UInt8)
    (encryptedFileKey keyIv dataIv encryptedContent : List UInt8) :
    List UInt8 :=
  let efkLen := encryptedFileKey.length % 2 ^ 16
  let kivLen := keyIv.length % 2 ^ 16
  let divLen := dataIv.length % 2 ^ 16
  magic ++ [version] ++ [providerType] ++ bigEndian 2 efkLen ++
    bigEndian 2 kivLen ++ bigEndian 2 divLen ++ encryptedFileKey ++ keyIv ++
    dataIv ++ encryptedContent

def parseEnvelope (data : List UInt8) : Except Failure (Envelope UInt8) := do
  if data.length < headerSize then
    throw (.internal "envelope too short".toList)
  if (← slice data 0 4) ≠ magic then
    throw (.internal "invalid envelope magic".toList)
  let found ← index data 4
  if found ≠ version then
    throw (.internal
      ("unsupported envelope version: ".toList ++ decimal found.toNat))
  let providerType ← index data 5
  let efkLen := ofBigEndian [← index data 6, ← index data 7]
  let kivLen := ofBigEndian [← index data 8, ← index data 9]
  let divLen := ofBigEndian [← index data 10, ← index data 11]
  let efkEnd := headerSize + efkLen
  let kivEnd := efkEnd + kivLen
  let divEnd := kivEnd + divLen
  if data.length < divEnd then
    throw (.internal "incomplete envelope".toList)
  return {
    providerType := providerType
    encryptedFileKey := ← slice data headerSize efkEnd
    keyIv := ← slice data efkEnd kivEnd
    dataIv := ← slice data kivEnd divEnd
    encryptedContent := ← slice data divEnd data.length }

/-- `build_envelope` of the parts. -/
def build (parts : Envelope UInt8) : List UInt8 :=
  buildEnvelope parts.providerType parts.encryptedFileKey parts.keyIv
    parts.dataIv parts.encryptedContent

end Rust

/-!
# The Python codec
-/

namespace Python

inductive Failure where
  | corruptedCiphertext (message : Str)
  | invalidMagic (found : List UInt8)
  /-- `struct.error`. -/
  | struct
deriving DecidableEq

/-- A number in the format `B` or `H`, of one or two bytes. -/
def pack (width : Nat) (n : Int) : Except Failure (List UInt8) :=
  if 0 ≤ n ∧ n < 256 ^ width then
    .ok (bigEndian width n.toNat)
  else
    .error .struct

/-- `data[start:stop]`. -/
def slice (data : List UInt8) (start stop : Nat) : List UInt8 :=
  (data.take stop).drop start

structure Header where
  magic : List UInt8
  version : Nat
  providerType : Nat
  efkLen : Nat
  kivLen : Nat
  divLen : Nat

/-- `struct.pack("!4sBBHHH", MAGIC, VERSION, …)`. -/
def packHeader (providerType : Int) (efkLen kivLen divLen : Nat) :
    Except Failure (List UInt8) := do
  let versionByte ← pack 1 version.toNat
  let providerByte ← pack 1 providerType
  let efkBytes ← pack 2 efkLen
  let kivBytes ← pack 2 kivLen
  let divBytes ← pack 2 divLen
  return magic ++ versionByte ++ providerByte ++ efkBytes ++ kivBytes ++
    divBytes

/-- `struct.unpack("!4sBBHHH", buffer)`. -/
def unpackHeader (buffer : List UInt8) : Except Failure Header :=
  if buffer.length = headerSize then
    .ok {
      magic := slice buffer 0 4
      version := ofBigEndian (slice buffer 4 5)
      providerType := ofBigEndian (slice buffer 5 6)
      efkLen := ofBigEndian (slice buffer 6 8)
      kivLen := ofBigEndian (slice buffer 8 10)
      divLen := ofBigEndian (slice buffer 10 12) }
  else
    .error .struct

def buildEnvelope (providerType : Int)
    (encryptedFileKey keyIv dataIv encryptedContent : List UInt8) :
    Except Failure (List UInt8) := do
  let header ← packHeader providerType encryptedFileKey.length keyIv.length
    dataIv.length
  return header ++ encryptedFileKey ++ keyIv ++ dataIv ++ encryptedContent

def parseEnvelope (ciphertext : List UInt8) :
    Except Failure (Envelope Int) := do
  if ciphertext.length < headerSize then
    throw (.corruptedCiphertext "Envelope too short".toList)
  let header ← unpackHeader (slice ciphertext 0 headerSize)
  if header.magic ≠ magic then
    throw (.invalidMagic header.magic)
  if header.version ≠ version.toNat then
    throw (.corruptedCiphertext
      ("Unsupported version: ".toList ++ decimal header.version))
  let offset := headerSize
  let efkEnd := offset + header.efkLen
  let kivEnd := efkEnd + header.kivLen
  let divEnd := kivEnd + header.divLen
  if ciphertext.length < divEnd then
    throw (.corruptedCiphertext "Incomplete envelope".toList)
  return {
    providerType := header.providerType
    encryptedFileKey := slice ciphertext offset efkEnd
    keyIv := slice ciphertext efkEnd kivEnd
    dataIv := slice ciphertext kivEnd divEnd
    encryptedContent := slice ciphertext divEnd ciphertext.length }

/-- `_build_envelope` of the parts. -/
def build (parts : Envelope Int) : Except Failure (List UInt8) :=
  buildEnvelope parts.providerType parts.encryptedFileKey parts.keyIv
    parts.dataIv parts.encryptedContent

end Python

end Crypto
end OpenViking
