import Mathlib.Algebra.GroupWithZero.Nat
import Mathlib.Data.Finset.Sort
import Mathlib.Data.Finset.SymmDiff
import Mathlib.Order.Interval.Finset.Fin

/-!
# Bitmap objects

A bitmap holds 32-bit ids in an ordered set while they are few and in a Roaring
bitmap afterwards, and it remembers the number of its ids once that was asked
for.  A Roaring bitmap is a set of ids; what is not allowed of one has no
result.
-/

namespace OpenViking
namespace Holder

abbrev Id : Type := Fin (2 ^ 32)

/-- The ids of a set in ascending order, as iterations visit them. -/
def ids (s : Finset Id) : List Id :=
  s.sort fun a b => a ≤ b

structure Bitmap where
  roaring : Finset Id
  set : Finset Id
  isRoaring : Bool
  nbitCache : Nat
  hasNbitCache : Bool
deriving DecidableEq

/-- The stored form of Roaring bitmaps. -/
structure Codec where
  write : Finset Id -> List UInt8
  /-- Read a portable or a native form; nothing when an error is thrown. -/
  read : Bool -> List UInt8 -> Option (Finset Id)
  read_write : forall s : Finset Id, read true (write s) = some s

namespace Bitmap

def setThreshold : Nat :=
  32

def new : Bitmap :=
  { roaring := ∅, set := ∅, isRoaring := false, nbitCache := 0,
    hasNbitCache := false }

variable (b : Bitmap)

def clear : Bitmap :=
  { b with roaring := ∅, set := ∅, isRoaring := false, hasNbitCache := false }

/-- The containers of a Roaring bitmap are freed before those of the other one
are read, so it is not copied from itself unless it has none. -/
def copy (b other : Bitmap) (same : Bool) : Option Bitmap :=
  if same && decide (b.roaring ≠ ∅) then
    none
  else
    some { b with
      roaring := other.roaring
      set := other.set
      isRoaring := other.isRoaring
      hasNbitCache := false }

def dropCache : Bitmap :=
  { b with hasNbitCache := false }

def toRoaring : Bitmap :=
  if b.isRoaring then b
  else { b with roaring := b.roaring ∪ b.set, set := ∅, isRoaring := true }

/-!
# Ids
-/

def setId (id : Id) : Bitmap :=
  if b.isRoaring then
    { b with roaring := insert id b.roaring, hasNbitCache := false }
  else
    let grown := { b with set := insert id b.set }
    if setThreshold < grown.set.card then grown.toRoaring.dropCache
    else grown.dropCache

def unset (id : Id) : Bitmap :=
  if b.isRoaring then
    { b with roaring := b.roaring.erase id, hasNbitCache := false }
  else
    { b with set := b.set.erase id, hasNbitCache := false }

def isset (id : Id) : Bool :=
  if b.isRoaring then decide (id ∈ b.roaring) else decide (id ∈ b.set)

/-- `addRange` of a Roaring bitmap leaves the upper end out. -/
def setRange (x y : Id) : Bitmap :=
  { b.toRoaring with
    roaring := b.toRoaring.roaring ∪ Finset.Ico x y
    hasNbitCache := false }

def setMany (added : List Id) : Bitmap :=
  if added = [] then
    b.dropCache
  else
    { b.toRoaring with
      roaring := b.toRoaring.roaring ∪ added.toFinset
      hasNbitCache := false }

/-!
# Set operations

An operand may be the receiver itself, where that is allowed.
-/

def union (b other : Bitmap) : Bitmap :=
  if other.isRoaring then
    { b.toRoaring with
      roaring := b.toRoaring.roaring ∪ other.roaring
      hasNbitCache := false }
  else
    ((ids other.set).foldl setId b).dropCache

/-- Two Roaring bitmaps are subtracted without dropping the cached count, and
must be different objects.  Ids of an ordered set cannot be unset while that
very set is visited. -/
def exclude (b other : Bitmap) (same : Bool) : Option Bitmap :=
  if b.isRoaring && other.isRoaring then
    if same then none
    else some { b with roaring := b.roaring \ other.roaring }
  else if !other.isRoaring then
    if same && decide (other.set ≠ ∅) then none
    else some ((ids other.set).foldl unset b).dropCache
  else
    some { b with
      set := b.set.filter fun id => other.isset id = false
      hasNbitCache := false }

/-- Two Roaring bitmaps are intersected without dropping the cached count. -/
def intersect (b other : Bitmap) : Bitmap :=
  if b.isRoaring && other.isRoaring then
    { b with roaring := b.roaring ∩ other.roaring }
  else if b.isRoaring then
    { b.clear with set := other.set.filter fun id => b.isset id = true }
  else
    { b with
      set := b.set.filter fun id => other.isset id = true
      hasNbitCache := false }

/-- Two Roaring bitmaps must be different objects, and the receiver has become
one. -/
def xor (b other : Bitmap) (same : Bool) : Option Bitmap :=
  if same then
    none
  else
    let ids := if other.isRoaring then other.roaring else other.set
    some { b.toRoaring with
      roaring := symmDiff b.toRoaring.roaring ids
      hasNbitCache := false }

/-- The first loop of `FastUnion`: Roaring operands are united, and the last
operand takes the place of each.  The others are left over. -/
def lazyUnions (acc : Finset Id) : List Bitmap -> Finset Id × List Bitmap
  | [] => (acc, [])
  | other :: rest =>
    if other.isRoaring then
      match _h : rest.getLast? with
      | none => (acc ∪ other.roaring, [])
      | some last =>
        lazyUnions (acc ∪ other.roaring) (last :: rest.dropLast)
    else
      let later := lazyUnions acc rest
      (later.1, other :: later.2)
termination_by others => others.length
decreasing_by
  · cases rest with
    | nil => cases _h
    | cons first others => simp
  · simp

/-- An operand `none` is the receiver, which must not be one of several: a
container of it is freed before it is read. -/
def fastUnion (others : List (Option Bitmap)) : Option Bitmap :=
  match others with
  | [] => some b
  | [other] => some (b.union (other.getD b)).dropCache
  | _ =>
    if none ∈ others then
      none
    else
      let later := lazyUnions b.toRoaring.roaring (others.filterMap id)
      some (later.2.foldl
        (fun (acc other : Bitmap) => (acc.union other).dropCache)
        { b.toRoaring with roaring := later.1 }).dropCache

/-!
# Counts and lists
-/

/-- The count is narrowed to 32 bits. -/
def nbit : Nat :=
  if b.isRoaring then b.roaring.card % 2 ^ 32 else b.set.card % 2 ^ 32

def getCachedNbit : Nat × Bitmap :=
  if b.hasNbitCache then (b.nbitCache, b)
  else (b.nbit, { b with nbitCache := b.nbit, hasNbitCache := true })

def empty : Bool :=
  decide (b.roaring = ∅) && decide (b.set = ∅)

/-- The ids of a Roaring bitmap are written to a vector of `nbit` places. -/
def getSetList : Option (List Id) :=
  if b.isRoaring then
    if b.nbit < b.roaring.card then none else some (ids b.roaring)
  else
    some (ids b.set)

instance : NeZero (2 ^ 32) := ⟨by decide⟩

/-- `result.resize(size, 0)`. -/
def resize (result : List Id) (size : Nat) : List Id :=
  result.take size ++ List.replicate (size - result.length) 0

/-- The number of places written, and the vector that was passed. -/
def getRangeList (result : List Id) (limit offset : Id) :
    Option ((Nat × List Id) × Bitmap) :=
  let cached := b.getCachedNbit
  let maxNum := cached.1
  let realLimit := min ((maxNum + 2 ^ 32 - offset.val) % 2 ^ 32) limit.val
  if maxNum ≤ offset.val ∨ realLimit = 0 then
    some ((0, result), cached.2)
  else
    let resized := resize result realLimit
    if b.isRoaring then
      let page := ((ids b.roaring).drop offset.val).take realLimit
      some ((realLimit, page ++ resized.drop page.length), cached.2)
    else if b.set.card < offset.val + realLimit then
      none
    else
      some ((realLimit, ((ids b.set).drop offset.val).take realLimit),
        cached.2)

/-!
# Stored form
-/

def serializeToString (codec : Codec) (b : Bitmap) : List UInt8 × Bitmap :=
  (codec.write b.toRoaring.roaring, b.toRoaring)

/-- The answer is whether nothing was thrown.  Few ids go to the ordered
set. -/
def parseFromString (codec : Codec) (b : Bitmap) (s : List UInt8)
    (portable : Bool) : Bool × Bitmap :=
  match codec.read portable s with
  | none => (false, { b.clear with isRoaring := true })
  | some found =>
    if found.card ≤ setThreshold then
      (true, { b.clear with set := found })
    else
      (true, { b.clear with roaring := found, isRoaring := true })

end Bitmap

end Holder
end OpenViking
