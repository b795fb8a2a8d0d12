import OpenViking.Scalar.ScalarIndex

/-!
# Filter operators

A filter is a tree of logic operators over field operators.  Every operator
has a bitmap of its own, and a way to fold itself into the result of the
operands before it, which depends on the logic operator above.
-/

namespace OpenViking
namespace Scalar

open Paths

variable {num : Type} [LinearOrder num]

/-- The name of the operator a result is folded under; a field operator at
the top passes its own name, which is neither. -/
inductive ResOp where
  | and
  | or
  | other
deriving DecidableEq

/-- A loaded filter operator.  A field operator uses its first field, and its
values as texts. -/
inductive FilterOp (num : Type) where
  | logic (op : ResOp) (ignoreEmptyCondition : Bool)
      (conds : List (FilterOp num))
  | must (field : Str) (typeConds : List Str) (depth : Int)
  | mustNot (field : Str) (typeConds : List Str) (depth : Int)
  | range (rangeOut : Bool) (field : Str) (lessThan : num)
      (lessThanEqual : Bool) (greaterThan : num) (greaterThanEqual : Bool)
  | geoRange (field0 field1 : Str) (x y radius : num)
  | labelIn (labels : List Nat)
  | prefixOp (field prefixValue : Str)
  | containsOp (field substringValue : Str)
  | regexOp (field patternValue : Str)

/-- What a filter uses besides the groups: the arithmetic of distances, the
regular expressions, and the offsets of labels. -/
structure FilterEnv (num : Type) where
  arith : Arith num
  regex : RegexEngine
  convert : List Nat -> Option (List Nat)

/-!
# Folding
-/

/-- Fold a bitmap into the result so far, as most operators do. -/
def combine (self pres : BitmapPtr) (onResOp : ResOp) : BitmapPtr :=
  match pres with
  | none => self
  | some p =>
    match onResOp with
    | .and =>
      match self with
      | none => none
      | some temp => some (p ∩ temp)
    | .or =>
      match self with
      | none => some p
      | some temp => some (p ∪ temp)
    | .other => none

variable (s : FieldBitmapGroupSet num)

/-- Under `and`, `MustNotOp::calc_bitmap` reads the bitmaps of its values by
their exact keys. -/
def MustNotOp.excluded (field : Str)
    (typeConds : List Str) : Bitmap :=
  match typeConds with
  | [] => ∅
  | [key] => (s.getBitmap field key).read
  | _ :: _ :: _ => (s.makeFieldCopy field typeConds).read

def MustNotOp.combine (field : Str)
    (typeConds : List Str) (self pres : BitmapPtr) (onResOp : ResOp) :
    BitmapPtr :=
  match pres with
  | none => self
  | some p =>
    match onResOp with
    | .and => some (p \ MustNotOp.excluded s field typeConds)
    | .or => some (p ∪ self.read)
    | .other => none

/-- `calc_bitmap` of an operator, given the bitmap of its own. -/
def FilterOp.calcWith (op : FilterOp num)
    (self pres : BitmapPtr) (onResOp : ResOp) : BitmapPtr :=
  match op with
  | .logic _ _ _ => combine self pres onResOp
  | .range _ _ _ _ _ _ => combine self pres onResOp
  | .geoRange _ _ _ _ _ => combine self pres onResOp
  | .must _ typeConds _ =>
    if typeConds = [] then none else combine self pres onResOp
  | .mustNot field typeConds _ =>
    MustNotOp.combine s field typeConds self pres onResOp
  | .labelIn labels =>
    if labels = [] then none else combine self pres onResOp
  | .prefixOp _ prefixValue =>
    if prefixValue = [] then none else combine self pres onResOp
  | .containsOp _ substringValue =>
    if substringValue = [] then none else combine self pres onResOp
  | .regexOp _ patternValue =>
    if patternValue = [] then none else combine self pres onResOp

def LabelInOp.calcSelfBitmap (env : FilterEnv num) (labels : List Nat) :
    BitmapPtr :=
  if labels = [] then
    none
  else
    match env.convert labels with
    | none => none
    | some [] => none
    | some (o :: rest) => some (o :: rest).toFinset

mutual
def FilterOp.calcSelfBitmap (env : FilterEnv num)
    (s : FieldBitmapGroupSet num) : FilterOp num -> BitmapPtr
  | .logic op ignoreEmptyCondition conds =>
    if op = .and ∧ ignoreEmptyCondition then
      calcIgnoring env s none conds
    else
      calcConds env s op none conds
  | .must field typeConds depth =>
    if s.isPathFieldName field then
      s.makePathFieldCopy field typeConds depth
    else
      s.makeFieldCopy field typeConds
  | .mustNot field typeConds depth =>
    if s.isPathFieldName field then
      some (s.makePathFieldExcludeCopy field typeConds depth)
    else
      some (s.makeFieldExcludeCopy field typeConds)
  | .range rangeOut field lessThan lessThanEqual greaterThan
        greaterThanEqual =>
      s.makeRangeCopy rangeOut field lessThan lessThanEqual greaterThan
        greaterThanEqual
  | .geoRange field0 field1 x y radius =>
    s.makeRange2dCopy env.arith field0 field1 x y radius
  | .labelIn labels => LabelInOp.calcSelfBitmap env labels
  | .prefixOp field prefixValue => s.makeFieldPrefixCopy field prefixValue
  | .containsOp field substringValue =>
    s.makeFieldContainsCopy field substringValue
  | .regexOp field patternValue =>
    s.makeFieldRegexCopy env.regex field patternValue

/-- The loop over the operands of a logic operator. -/
def calcConds (env : FilterEnv num) (s : FieldBitmapGroupSet num)
    (op : ResOp) (pres : BitmapPtr) : List (FilterOp num) -> BitmapPtr
  | [] => pres
  | cond :: rest =>
    match cond.calcWith s (cond.calcSelfBitmap env s) pres op with
    | some p => calcConds env s op (some p) rest
    | none =>
      if op = .or then calcConds env s op none rest else none

/-- The loop of an `and` that ignores operands without a result. -/
def calcIgnoring (env : FilterEnv num) (s : FieldBitmapGroupSet num)
    (pres : BitmapPtr) : List (FilterOp num) -> BitmapPtr
  | [] => pres
  | cond :: rest =>
    match cond.calcWith s (cond.calcSelfBitmap env s) none .and with
    | none => calcIgnoring env s pres rest
    | some result =>
      match pres with
      | none => calcIgnoring env s (some result) rest
      | some p => calcIgnoring env s (some (p ∩ result)) rest
end

def FilterOp.calcBitmap (env : FilterEnv num) (s : FieldBitmapGroupSet num)
    (op : FilterOp num) (pres : BitmapPtr) (onResOp : ResOp) : BitmapPtr :=
  op.calcWith s (op.calcSelfBitmap env s) pres onResOp

end Scalar
end OpenViking
