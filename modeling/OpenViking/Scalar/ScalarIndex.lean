import OpenViking.Common.Assoc
import OpenViking.Scalar.DirIndex

/-!
# Field groups

The index of one field: a bitmap for every key, the ranged map of its numbers
and, for a path field, the directory index.  A group set keeps the groups of
all fields.  Offsets are not negative, and the sizes fit their types.
-/

namespace OpenViking
namespace Scalar

open Paths

variable {num : Type} [LinearOrder num]

/-- The regular expression engine: a pattern compiles or not, and a search
answers or gives up. -/
abbrev RegexEngine : Type := Str -> Option (Str -> Option Bool)

/-- `kBitmapGroupUnknown` and the four layouts. -/
inductive GroupType where
  | unknown
  | bitmaps
  | rangedMap
  | bothBitmapsAndRange
  | dir
deriving DecidableEq

structure FieldBitmapGroup (num : Type) where
  bitmapGroup : Assoc Str Bitmap
  rangedmap : Option (RangedMap num)
  dirIndex : Option DirIndex
  typeId : GroupType
  elementSize : Nat

/-- `str::find_first_of` cuts a text at every separator; empty tokens go. -/
def split (text : Str) : List Str :=
  (text.splitOn ';').filter fun token => decide (token ≠ [])

namespace FieldBitmapGroup

def new (typeId : GroupType) : FieldBitmapGroup num where
  bitmapGroup := ∅
  rangedmap :=
    match typeId with
    | .bothBitmapsAndRange | .rangedMap => some RangedMap.empty
    | _ => none
  dirIndex :=
    match typeId with
    | .dir => some DirIndex.empty
    | _ => none
  typeId := typeId
  elementSize := 0

variable (g : FieldBitmapGroup num)

def getTypeId : GroupType :=
  if g.typeId ≠ .unknown then g.typeId
  else if g.dirIndex.isSome then .dir
  else if g.bitmapGroup.bindings ≠ [] ∧ g.rangedmap.isSome then
    .bothBitmapsAndRange
  else if g.bitmapGroup.bindings ≠ [] then .bitmaps
  else if g.rangedmap.isSome then .rangedMap
  else .unknown

/-!
# Changes
-/

def normalizePathKey (key : Str) : Str :=
  match key with
  | [] => key
  | c :: _ => if c = '/' then key else '/' :: key

/-- The keys a field text stands for. -/
def keysOf (fieldStr : Str) : List Str :=
  let norm := fun key =>
    if g.dirIndex.isSome then normalizePathKey key else key
  if ';' ∈ fieldStr then (split fieldStr).map norm else [norm fieldStr]

def addKey (g : FieldBitmapGroup num) (offset : Nat) (key : Str) :
    FieldBitmapGroup num :=
  match g.bitmapGroup.find key with
  | some bitmap =>
    { g with bitmapGroup := g.bitmapGroup.put key (bitmap ∪ {offset}) }
  | none =>
    { g with
      bitmapGroup := g.bitmapGroup.put key {offset}
      dirIndex := g.dirIndex.map fun root => root.addKey key key }

def addFieldStr (fieldStr : Str) (offset : Nat) :
    Int × FieldBitmapGroup num :=
  let g' := (g.keysOf fieldStr).foldl (fun g key => g.addKey offset key) g
  (0, { g' with elementSize := max (offset + 1) g'.elementSize })

def addFieldDbl (fieldDbl : num) (offset : Nat) :
    Int × FieldBitmapGroup num :=
  let map := g.rangedmap.getD RangedMap.empty
  match map.addOffsetAndScore offset fieldDbl with
  | (ret, map') =>
    if ret ≠ 0 then
      (ret, { g with rangedmap := some map' })
    else
      (0, { g with rangedmap := some map'
                   elementSize := max (offset + 1) g.elementSize })

/-- A key without a bitmap gets an empty one, which no trie node points to. -/
def deleteKey (offset : Nat) (key : Str) :
    FieldBitmapGroup num :=
  let bitmap := (g.bitmapGroup.find key).getD ∅
  { g with bitmapGroup := g.bitmapGroup.put key (bitmap.erase offset) }

def deleteFieldStr (fieldStr : Str)
    (offset : Nat) : Int × FieldBitmapGroup num :=
  if g.elementSize ≤ offset then
    (-1, g)
  else
    (0, (g.keysOf fieldStr).foldl (fun g key => g.deleteKey offset key) g)

def deleteFieldDbl (offset : Nat) :
    Int × FieldBitmapGroup num :=
  if g.elementSize ≤ offset then
    (-1, g)
  else
    let map := g.rangedmap.getD RangedMap.empty
    match map.deleteOffset offset with
    | (ret, map') => (ret, { g with rangedmap := some map' })

/-!
# Bitmaps of keys
-/

def getBitmap (key : Str) : BitmapPtr :=
  g.bitmapGroup.find key

/-- The union of the bitmaps whose key satisfies a test; none when no key
does. -/
def getBitmapWhere (test : Str -> Bool) :
    BitmapPtr :=
  g.bitmapGroup.bindings.foldl
    (fun result kv =>
      if test kv.1 then
        match result with
        | none => some kv.2
        | some acc => some (acc ∪ kv.2)
      else result)
    none

def getBitmapByPrefix (pathPrefix : Str) :
    BitmapPtr :=
  g.getBitmapWhere fun key => decide (pathPrefix <+: key)

def getBitmapByContains (substring : Str) :
    BitmapPtr :=
  g.getBitmapWhere fun key => decide (substring <:+: key)

def getBitmapByRegex (engine : RegexEngine)
    (pattern : Str) : BitmapPtr :=
  if g.bitmapGroup.bindings = [] then none
  else
    match engine pattern with
    | none => none
    | some search =>
      if g.bitmapGroup.bindings.all fun kv => (search kv.1).isSome then
        g.getBitmapWhere fun key => (search key).getD false
      else none

end FieldBitmapGroup

/-!
# Group sets
-/

structure FieldBitmapGroupSet (num : Type) where
  elementSize : Nat
  pathFieldNames : List Str
  groups : Assoc Str (FieldBitmapGroup num)

namespace FieldBitmapGroupSet

def empty : FieldBitmapGroupSet num := ⟨0, [], ∅⟩

variable (s : FieldBitmapGroupSet num)

def addFieldGroup (fieldName : Str)
    (g : FieldBitmapGroup num) : Int × FieldBitmapGroupSet num :=
  match s.groups.find fieldName with
  | some _ => (-2, s)
  | none =>
    (0, { s with
          groups := s.groups.put fieldName g
          pathFieldNames :=
            if g.getTypeId = .dir then fieldName :: s.pathFieldNames
            else s.pathFieldNames })

def isPathFieldName (fieldName : Str) : Bool :=
  decide (fieldName ∈ s.pathFieldNames)

/-- Change the group of every known field in turn. -/
def changeFields {value : Type} (s : FieldBitmapGroupSet num)
    (change : FieldBitmapGroup num -> value -> FieldBitmapGroup num)
    (kvs : List (Str × value)) : FieldBitmapGroupSet num :=
  kvs.foldl
    (fun s kv =>
      match s.groups.find kv.1 with
      | none => s
      | some g => { s with groups := s.groups.put kv.1 (change g kv.2) })
    s

def grown (offset : Nat) :
    FieldBitmapGroupSet num :=
  { s with elementSize := max s.elementSize (offset + 1) }

def addFieldStrs (kvs : List (Str × Str))
    (offset : Nat) : FieldBitmapGroupSet num :=
  (s.changeFields (fun g v => (g.addFieldStr v offset).2) kvs).grown offset

def addFieldDbls (kvs : List (Str × num))
    (offset : Nat) : FieldBitmapGroupSet num :=
  (s.changeFields (fun g v => (g.addFieldDbl v offset).2) kvs).grown offset

def deleteFieldStrs (kvs : List (Str × Str))
    (offset : Nat) : FieldBitmapGroupSet num :=
  if s.elementSize ≤ offset then s
  else s.changeFields (fun g v => (g.deleteFieldStr v offset).2) kvs

def deleteFieldDbls (kvs : List (Str × num))
    (offset : Nat) : FieldBitmapGroupSet num :=
  if s.elementSize ≤ offset then s
  else s.changeFields (fun g _ => (g.deleteFieldDbl offset).2) kvs

/-!
# Copies
-/

def getBitmap (s : FieldBitmapGroupSet num) (field key : Str) : BitmapPtr :=
  (s.groups.find field).bind fun g => g.getBitmap key

def makeFullTemp : Bitmap :=
  Finset.range s.elementSize

def makeRangeCopy (rangeOut : Bool)
    (field : Str) (lowerThan : num) (includeLe : Bool) (greaterThan : num)
    (includeGe : Bool) : BitmapPtr :=
  (s.groups.find field).bind fun g =>
    g.rangedmap.bind fun m =>
      m.getRangeBitmap rangeOut lowerThan includeLe greaterThan includeGe

def makeRange2dCopy (arith : Arith num) (s : FieldBitmapGroupSet num)
    (field0 field1 : Str) (x y radius : num) : BitmapPtr :=
  (s.groups.find field0).bind fun g0 =>
    (s.groups.find field1).bind fun g1 =>
      g0.rangedmap.bind fun m0 =>
        g1.rangedmap.bind fun m1 =>
          RangedMap.getRange2dBitmap arith m0 m1 x y radius

def makeFieldCopy (field : Str)
    (keys : List Str) : BitmapPtr :=
  match keys with
  | [] => none
  | [key] => s.getBitmap field key
  | _ :: _ :: _ => some (unionAll (keys.filterMap (s.getBitmap field)))

def makePathFieldCopy (field : Str)
    (keys : List Str) (depth : Int) : BitmapPtr :=
  match s.groups.find field with
  | none => none
  | some g =>
    if depth = -1 ∧ exists key, key ∈ keys ∧ (key = ['/'] ∨ key = []) then
      some s.makeFullTemp
    else
      match g.dirIndex with
      | none => none
      | some root =>
        some (unionAll ((keys.flatMap fun key =>
          root.getMergedBitmaps key depth).filterMap g.getBitmap))

def makePathFieldExcludeCopy (field : Str)
    (keys : List Str) (depth : Int) : Bitmap :=
  s.makeFullTemp \ (s.makePathFieldCopy field keys depth).read

def makeFieldExcludeCopy (field : Str)
    (keys : List Str) : Bitmap :=
  match keys with
  | [] => s.makeFullTemp
  | [key] => s.makeFullTemp \ (s.getBitmap field key).read
  | _ :: _ :: _ => s.makeFullTemp \ (s.makeFieldCopy field keys).read

def makeFieldPrefixCopy (field pathPrefix : Str) :
    BitmapPtr :=
  (s.groups.find field).bind fun g =>
    g.getBitmapByPrefix (
      if s.isPathFieldName field then
        FieldBitmapGroup.normalizePathKey pathPrefix
      else pathPrefix)

def makeFieldContainsCopy
    (field substring : Str) : BitmapPtr :=
  (s.groups.find field).bind fun g => g.getBitmapByContains substring

def makeFieldRegexCopy (engine : RegexEngine)
    (field pattern : Str) : BitmapPtr :=
  (s.groups.find field).bind fun g => g.getBitmapByRegex engine pattern

end FieldBitmapGroupSet

/-!
# The scalar index

The fields of a record arrive as a parsed JSON object.  They are flattened to
texts and numbers, and the index moves an offset from the old fields of its
record to the new ones.
-/

variable {num : Type} [LinearOrder num]

/-!
# Fields
-/

/-- An element of an array, as far as it is read. -/
inductive JsonElem where
  | int64 (i : Int)
  | string (s : Str)
  | other
deriving DecidableEq

/-- A value of a JSON object; a number that is no integer is given by its text.
An integer that fits 64 bits without a sign only, a null and an object are
never read. -/
inductive Json where
  | int64 (i : Int)
  | double (text : Str)
  | string (s : Str)
  | bool (b : Bool)
  | array (elems : List JsonElem)
  | other
deriving DecidableEq

/-- The members of a JSON object in order; an empty text and a text that does
not parse have none. -/
abbrev Document : Type := List (Str × Json)

/-- What the program makes of the numbers of a JSON text.  The reader it uses
may give a neighbour of the number that a text stands for. -/
structure NumberReader (num : Type) where
  toDouble : Int -> num
  getDouble : Str -> num

/-- `std::to_string` of an integer. -/
def intText (i : Int) : Str :=
  if i < 0 then '-' :: Nat.toDigits 10 i.natAbs
  else Nat.toDigits 10 i.natAbs

/-- A text read through a C string ends at its first NUL. -/
def cString (s : Str) : Str :=
  s.takeWhile fun c => decide (c ≠ Char.ofNat 0)

def JsonElem.text : JsonElem -> Str
  | .int64 i => intText i
  | .string s => cString s
  | .other => []

def boolText (b : Bool) : Str :=
  if b then ['1'] else ['0']

structure FieldsDict (num : Type) where
  strKvMap : Assoc Str Str
  dblKvMap : Assoc Str num

namespace FieldsDict

def none : FieldsDict num := ⟨∅, ∅⟩

def isEmpty (d : FieldsDict num) : Prop :=
  d.strKvMap.bindings = [] ∧ d.dblKvMap.bindings = []

instance (d : FieldsDict num) : Decidable d.isEmpty := by
  unfold isEmpty
  haveI : Decidable (d.strKvMap.bindings = []) := List.instDecidableEqNil _
  haveI : Decidable (d.dblKvMap.bindings = []) := List.instDecidableEqNil _
  infer_instance

/-- The text and the number one member of an object is flattened to. -/
def flatten (reader : NumberReader num) : Json -> Option Str × Option num
  | .int64 i => (some (intText i), some (reader.toDouble i))
  | .double text => (Option.none, some (reader.getDouble text))
  | .string s => (some (cString s), Option.none)
  | .bool b => (some (boolText b), Option.none)
  | .array elems => (some ([';'].intercalate (elems.map JsonElem.text)), Option.none)
  | .other => (Option.none, Option.none)

def readMember (reader : NumberReader num) (d : FieldsDict num)
    (member : Str × Json) : FieldsDict num :=
  let key := cString member.1
  let flat := flatten reader member.2
  { strKvMap :=
      match flat.1 with
      | some text => d.strKvMap.put key text
      | Option.none => d.strKvMap
    dblKvMap :=
      match flat.2 with
      | some value => d.dblKvMap.put key value
      | Option.none => d.dblKvMap }

def parseFromJson (reader : NumberReader num) (doc : Document) :
    FieldsDict num :=
  doc.foldl (readMember reader) none

end FieldsDict

/-!
# The index
-/

inductive FieldType where
  | int64
  | float32
  | string
  | bool
  | listString
  | listInt64
  | path
  | unsupported
deriving DecidableEq

def FieldType.getTypeId : FieldType -> GroupType
  | .int64 => .bothBitmapsAndRange
  | .float32 => .rangedMap
  | .string | .bool | .listString | .listInt64 => .bitmaps
  | .path => .dir
  | .unsupported => .unknown

namespace ScalarIndex

/-- A new index has an empty group for every declared field. -/
def new (items : Assoc Str FieldType) : FieldBitmapGroupSet num :=
  items.bindings.foldl
    (fun s item =>
      if item.2.getTypeId ≠ .unknown then
        (s.addFieldGroup item.1 (.new item.2.getTypeId)).2
      else s)
    .empty

def deleteRowData (s : FieldBitmapGroupSet num) (offset : Nat)
    (oldFields : FieldsDict num) : FieldBitmapGroupSet num :=
  if oldFields.isEmpty then s
  else
    let s1 :=
      if oldFields.strKvMap.bindings = [] then s
      else s.deleteFieldStrs oldFields.strKvMap.bindings offset
    if oldFields.dblKvMap.bindings = [] then s1
    else s1.deleteFieldDbls oldFields.dblKvMap.bindings offset

def addRowData (s : FieldBitmapGroupSet num) (offset : Nat)
    (fields oldFields : FieldsDict num) : FieldBitmapGroupSet num :=
  let s0 := deleteRowData s offset oldFields
  if fields.isEmpty then s0
  else
    let s1 :=
      if fields.strKvMap.bindings = [] then s0
      else s0.addFieldStrs fields.strKvMap.bindings offset
    if fields.dblKvMap.bindings = [] then s1
    else s1.addFieldDbls fields.dblKvMap.bindings offset

end ScalarIndex

end Scalar
end OpenViking
