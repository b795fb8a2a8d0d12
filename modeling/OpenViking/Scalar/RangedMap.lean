import OpenViking.Common.Bisect
import Mathlib.Algebra.GroupWithZero.Nat
import Mathlib.Data.Finset.Basic
import Mathlib.Data.Finset.Lattice.Lemmas
import Mathlib.Data.Finset.Range
import Mathlib.Order.Defs.LinearOrder
import Mathlib.Data.List.Zip
import Mathlib.Data.List.Perm.Basic
import Mathlib.Data.List.GetD
import Mathlib.Order.Lattice

/-!
# Bitmaps and ranged maps

A bitmap is the finite set of the offsets it holds; how it stores them (a small
set or a compressed bitmap) and its cached count are left out, and a pointer to
a bitmap that may be null is an option.

A ranged map keeps the numbers of a field, cut into slots of bounded size in
ascending order.  A number is a value of any linear order, and the value of an
offset is missing where the program writes a NaN.
-/

namespace OpenViking
namespace Scalar

open List

abbrev Bitmap : Type := Finset Nat

abbrev BitmapPtr : Type := Option Bitmap

/-- The offsets behind a pointer; a null pointer holds none. -/
def BitmapPtr.read (p : BitmapPtr) : Bitmap :=
  p.getD ∅

@[simp] theorem BitmapPtr.read_none : BitmapPtr.read none = ∅ := rfl

@[simp] theorem BitmapPtr.read_some (b : Bitmap) :
    BitmapPtr.read (some b) = b := rfl

/-- `FastUnion` over a list of bitmaps. -/
def unionAll (bs : List Bitmap) : Bitmap :=
  bs.foldl (fun acc b => acc ∪ b) ∅

theorem mem_foldl_union (bs : List Bitmap) (acc : Bitmap) (o : Nat) :
    o ∈ bs.foldl (fun acc b => acc ∪ b) acc <->
      o ∈ acc ∨ exists b, b ∈ bs ∧ o ∈ b := by
  induction bs generalizing acc with
  | nil => simp
  | cons b rest ih =>
    rw [foldl_cons, ih, Finset.mem_union]
    simp only [mem_cons, exists_eq_or_imp, or_assoc]

variable {o : Nat}

theorem mem_unionAll {bs : List Bitmap} :
    o ∈ unionAll bs <-> exists b, b ∈ bs ∧ o ∈ b := by
  rw [unionAll, mem_foldl_union]
  simp

def rangedMapSlotSize : Nat := 10000

/-!
# Slots
-/

variable {num : Type}

structure SlotMeta (num : Type) where
  left : num
  right : num
  bitmap : Bitmap
  valueVec : List num
  offsetVec : List Nat
deriving DecidableEq

/-- The slots in ascending order, and the value of every offset. -/
structure RangedMap (num : Type) where
  offsetToValue : List (Option num)
  slots : List (SlotMeta num)
deriving DecidableEq

def RangedMap.empty : RangedMap num := ⟨[], []⟩

def RangedMap.valueAt (m : RangedMap num) (offset : Nat) : Option num :=
  m.offsetToValue[offset]?.join

variable [LinearOrder num]

/-- `std::lower_bound` on a sorted vector. -/
def lowerBound (xs : List num) (v : num) : Nat :=
  xs.findIdx fun x => decide (v ≤ x)

/-- `std::upper_bound` on a sorted vector. -/
def upperBound (xs : List num) (v : num) : Nat :=
  xs.findIdx fun x => decide (v < x)

namespace SlotMeta

def single (offset : Nat) (value : num) : SlotMeta num where
  left := value
  right := value
  bitmap := {offset}
  valueVec := [value]
  offsetVec := [offset]

/-- Cut a slot in two halves; a slot with fewer than two values stays. -/
def splitHalfToNewSlot (s : SlotMeta num) :
    Option (SlotMeta num × SlotMeta num) :=
  let splitIdx := s.valueVec.length / 2
  let newValues := s.valueVec.drop splitIdx
  let newOffsets := s.offsetVec.drop splitIdx
  let values := s.valueVec.take splitIdx
  let offsets := s.offsetVec.take splitIdx
  match newValues.head?, newValues.getLast?, values.getLast? with
  | some newLeft, some newRight, some right =>
    if s.valueVec.length < 2 then
      none
    else
      some ({ left := s.left, right, bitmap := offsets.toFinset,
              valueVec := values, offsetVec := offsets },
            { left := newLeft, right := newRight,
              bitmap := newOffsets.toFinset, valueVec := newValues,
              offsetVec := newOffsets })
  | _, _, _ => none

def getRightBorder (s : SlotMeta num) (lowerThan : num) (includeLe : Bool) :
    Nat :=
  if includeLe then upperBound s.valueVec lowerThan
  else lowerBound s.valueVec lowerThan

def getLeftBorder (s : SlotMeta num) (greaterThan : num) (includeGe : Bool) :
    Nat :=
  if includeGe then lowerBound s.valueVec greaterThan
  else upperBound s.valueVec greaterThan

/-- The offsets a call collects, and how many it counts. -/
abbrev Picked : Type := Bitmap × Nat

def getLowerThanData (s : SlotMeta num) (lowerThan : num) (includeLe : Bool) :
    Picked :=
  let boundIdx := s.getRightBorder lowerThan includeLe
  ((s.offsetVec.take boundIdx).toFinset, boundIdx)

def getGreaterThanData (s : SlotMeta num) (greaterThan : num)
    (includeGe : Bool) : Picked :=
  let boundIdx := s.getLeftBorder greaterThan includeGe
  ((s.offsetVec.drop boundIdx).toFinset, s.offsetVec.length - boundIdx)

/-- The count is an unsigned difference, which wraps when the borders cross. -/
def getRangeData (s : SlotMeta num) (lowerThan : num) (includeLe : Bool)
    (greaterThan : num) (includeGe : Bool) : Picked :=
  let lBorder := s.getLeftBorder greaterThan includeGe
  let rBorder := s.getRightBorder lowerThan includeLe
  (((s.offsetVec.take rBorder).drop lBorder).toFinset,
    if lBorder ≤ rBorder then rBorder - lBorder
    else 2 ^ 32 - (lBorder - rBorder))

def insert (slot : SlotMeta num) (offset : Nat) (value : num) :
    SlotMeta num :=
  let vecIdx := upperBound slot.valueVec value
  { left := min value slot.left
    right := max value slot.right
    bitmap := slot.bitmap ∪ {offset}
    valueVec := slot.valueVec.take vecIdx ++ value :: slot.valueVec.drop vecIdx
    offsetVec := slot.offsetVec.take vecIdx ++
      offset :: slot.offsetVec.drop vecIdx }

/-- Put a slot with a new value back, split when it has grown too large. -/
def storedAt (slotSize : Nat) (slot : SlotMeta num) : List (SlotMeta num) :=
  if slotSize * 2 < slot.valueVec.length then
    match slot.splitHalfToNewSlot with
    | some (low, high) => [low, high]
    | none => [slot]
  else
    [slot]

def stored (slot : SlotMeta num) : List (SlotMeta num) :=
  slot.storedAt rangedMapSlotSize

/-- Take the value at a place out of a slot. -/
def erase (slot : SlotMeta num) (offset vecIdx : Nat) :
    List (SlotMeta num) :=
  let values := slot.valueVec.eraseIdx vecIdx
  match values.head?, values.getLast? with
  | some left, some right =>
    [{ left, right, bitmap := slot.bitmap.erase offset, valueVec := values,
       offsetVec := slot.offsetVec.eraseIdx vecIdx }]
  | _, _ => []

end SlotMeta

/-!
# Finding slots
-/

namespace RangedMap

variable (slots : List (SlotMeta num))

def slotLowerBoundProbe (val : num) (mid : Nat) :
    Ordering :=
  match slots[mid]? with
  | none => .gt
  | some slot =>
    if slot.right < val then .lt
    else if val ≤ slot.left then .gt
    else .eq

variable (m : RangedMap num)

def slotLowerBoundIdx (val : num) : Nat :=
  bisect (slotLowerBoundProbe m.slots val) m.slots.length 0 m.slots.length

def slotUpperBoundProbe (val : num) (mid : Nat) :
    Ordering :=
  match slots[mid]? with
  | none => .gt
  | some slot =>
    if slot.right ≤ val then .lt
    else if val < slot.left then .gt
    else .eq

def slotUpperBoundIdx (val : num) : Nat :=
  bisect (slotUpperBoundProbe m.slots val) m.slots.length 0 m.slots.length

/-- The last slot that may hold a value below the bound, or `-1`. -/
def findRightSlotIndex (lowerThan : num)
    (includeLe : Bool) : Int :=
  if includeLe then
    let slotIdx := min (m.slotUpperBoundIdx lowerThan) (m.slots.length - 1)
    match m.slots[slotIdx]? with
    | some slot => if lowerThan < slot.left then (slotIdx : Int) - 1 else slotIdx
    | none => slotIdx
  else
    let slotIdx := min (m.slotLowerBoundIdx lowerThan) (m.slots.length - 1)
    match m.slots[slotIdx]? with
    | some slot => if lowerThan ≤ slot.left then (slotIdx : Int) - 1 else slotIdx
    | none => slotIdx

/-- The first slot that may hold a value above the bound. -/
def findLeftSlotIndex (greaterThan : num)
    (includeGe : Bool) : Nat :=
  if includeGe then m.slotLowerBoundIdx greaterThan
  else m.slotUpperBoundIdx greaterThan

/-!
# Changes
-/

/-- The value vector, long enough for the offset. -/
def resized (values : List (Option num)) (offset : Nat) : List (Option num) :=
  values ++ List.replicate (offset + 1 - values.length) none

/-- Add a value, for any number of values at which slots are split. -/
def addAt (slotSize : Nat) (m : RangedMap num) (offset : Nat) (value : num) :
    Int × RangedMap num :=
  match m.valueAt offset with
  | some _ => (-1, m)
  | none =>
    let offsetToValue := (resized m.offsetToValue offset).set offset
      (some value)
    match m.slots with
    | [] =>
      (0, { offsetToValue, slots := [SlotMeta.single offset value] })
    | _ :: _ =>
      let slotIdx := (m.findRightSlotIndex value true).toNat
      match m.slots[slotIdx]? with
      | none => (0, { m with offsetToValue })
      | some slot =>
        (0, { offsetToValue,
              slots := m.slots.take slotIdx ++
                (slot.insert offset value).storedAt slotSize ++
                m.slots.drop (slotIdx + 1) })

def addOffsetAndScore (offset : Nat) (value : num) : Int × RangedMap num :=
  m.addAt rangedMapSlotSize offset value

/-- The first slot from a place on whose bitmap holds the offset. -/
def slotHolding (offset start : Nat) : Nat :=
  start + (slots.drop start).findIdx fun slot => decide (offset ∈ slot.bitmap)

def deleteOffset (offset : Nat) : Int × RangedMap num :=
  match m.slots with
  | [] => (-1, m)
  | _ :: _ =>
    match m.valueAt offset with
    | none => (-1, m)
    | some value =>
      let offsetToValue := m.offsetToValue.set offset none
      let slotIdx := slotHolding m.slots offset
        (m.findLeftSlotIndex value true)
      match m.slots[slotIdx]? with
      | none => (-1, { m with offsetToValue })
      | some slot =>
        let first := lowerBound slot.valueVec value
        let vecIdx := first +
          (slot.offsetVec.drop first).findIdx fun o => decide (o = offset)
        if slot.offsetVec.length ≤ vecIdx then
          (-1, { offsetToValue,
                 slots := m.slots.set slotIdx
                  { slot with bitmap := slot.bitmap.erase offset } })
        else
          (0, { offsetToValue,
                slots := m.slots.take slotIdx ++
                  slot.erase offset vecIdx ++
                  m.slots.drop (slotIdx + 1) })

/-!
# Ranges
-/

/-- Whole slots, and how many offsets they hold. -/
def wholeSlots : SlotMeta.Picked :=
  slots.foldl
    (fun acc slot => (acc.1 ∪ slot.bitmap, acc.2 + slot.offsetVec.length))
    (∅, 0)

def pickBoth (a b : SlotMeta.Picked) : SlotMeta.Picked :=
  (a.1 ∪ b.1, a.2 + b.2)

/-- What a slot found by its index contributes; no slot, nothing. -/
def pickAt (idx : Int)
    (pick : SlotMeta num -> SlotMeta.Picked) : SlotMeta.Picked :=
  if idx < 0 then (∅, 0)
  else
    match slots[idx.toNat]? with
    | some slot => pick slot
    | none => (∅, 0)

def pickInside (lowerThan : num) (includeLe : Bool)
    (greaterThan : num) (includeGe : Bool) : SlotMeta.Picked :=
  let rIndex := m.findRightSlotIndex lowerThan includeLe
  let lIndex := m.findLeftSlotIndex greaterThan includeGe
  let between := wholeSlots ((m.slots.take rIndex.toNat).drop (lIndex + 1))
  if rIndex ≠ -1 ∧ lIndex ≠ m.slots.length then
    if lIndex < rIndex then
      pickBoth between (pickBoth
        (pickAt m.slots rIndex fun slot =>
          slot.getLowerThanData lowerThan includeLe)
        (pickAt m.slots lIndex fun slot =>
          slot.getGreaterThanData greaterThan includeGe))
    else if (lIndex : Int) = rIndex then
      pickBoth between (pickAt m.slots rIndex fun slot =>
        slot.getRangeData lowerThan includeLe greaterThan includeGe)
    else
      between
  else
    between

def pickOutside (lowerThan : num) (includeLe : Bool)
    (greaterThan : num) (includeGe : Bool) : SlotMeta.Picked :=
  let rIndex := m.findRightSlotIndex lowerThan includeLe
  let lIndex := m.findLeftSlotIndex greaterThan includeGe
  pickBoth
    (pickBoth (wholeSlots (m.slots.take lIndex))
      (pickAt m.slots lIndex fun slot =>
        slot.getLowerThanData greaterThan (!includeGe)))
    (pickBoth (wholeSlots (m.slots.drop (rIndex + 1).toNat))
      (pickAt m.slots rIndex fun slot =>
        slot.getGreaterThanData lowerThan (!includeLe)))

def getRangeBitmap (rangeOut : Bool) (lowerThan : num)
    (includeLe : Bool) (greaterThan : num) (includeGe : Bool) : BitmapPtr :=
  match m.slots with
  | [] => none
  | _ :: _ =>
    let picked :=
      if rangeOut then
        if lowerThan < greaterThan then
          m.pickOutside greaterThan includeGe lowerThan includeLe
        else
          m.pickOutside lowerThan includeLe greaterThan includeGe
      else
        m.pickInside lowerThan includeLe greaterThan includeGe
    if picked.2 = 0 then none else some picked.1

end RangedMap

/-!
# Two dimensions
-/

/-- The arithmetic on numbers that distances need. -/
structure Arith (num : Type) where
  zero : num
  add : num -> num -> num
  sub : num -> num -> num
  mul : num -> num -> num

namespace RangedMap

def distSquareTo (arith : Arith num) (xs ys : RangedMap num) (x y : num)
    (offset : Nat) : Option num :=
  match xs.valueAt offset, ys.valueAt offset with
  | some vx, some vy =>
    let xdiff := arith.sub vx x
    let ydiff := arith.sub vy y
    some (arith.add (arith.mul xdiff xdiff) (arith.mul ydiff ydiff))
  | _, _ => none

/-- A distance that is not a number is never too large. -/
def nearTo (arith : Arith num) (xs ys : RangedMap num) (x y radius : num)
    (offset : Nat) : Bool :=
  match distSquareTo arith xs ys x y offset with
  | some d2 => decide (d2 ≤ arith.mul radius radius)
  | none => true

def getRange2dBitmap (arith : Arith num) (xs ys : RangedMap num)
    (x y radius : num) : BitmapPtr :=
  if radius ≤ arith.zero then
    none
  else
    match xs.getRangeBitmap false (arith.add x radius) true
        (arith.sub x radius) true with
    | none => none
    | some inX =>
      if inX = ∅ then none
      else
        match ys.getRangeBitmap false (arith.add y radius) true
            (arith.sub y radius) true with
        | none => none
        | some inY =>
          if inY = ∅ then none
          else
            let near := (inX ∩ inY).filter fun offset =>
              nearTo arith xs ys x y radius offset = true
            if near = ∅ then none else some near

end RangedMap

/-!
# Slots of a ranged map

A well-formed slot holds ascending values beside their offsets, its ends are
its first and last value, and its bitmap is its offsets.  What a slot
contributes to a range is then read off the values.
-/

variable {num : Type} [LinearOrder num]

/-- A value keeps an upper bound, which is part of the range or not. -/
def Below (incl : Bool) (bound v : num) : Prop :=
  if incl then v ≤ bound else v < bound

/-- A value keeps a lower bound. -/
def Above (incl : Bool) (bound v : num) : Prop :=
  if incl then bound ≤ v else bound < v

instance (incl : Bool) (bound v : num) : Decidable (Below incl bound v) := by
  unfold Below
  infer_instance

instance (incl : Bool) (bound v : num) : Decidable (Above incl bound v) := by
  unfold Above
  infer_instance

variable {bound v : num} {incl : Bool}

theorem Below.of_le {w : num} (h : Below incl bound w)
    (hle : v ≤ w) : Below incl bound v := by
  cases incl with
  | true => exact le_trans hle h
  | false => exact lt_of_le_of_lt hle h

theorem Above.of_le {w : num} (h : Above incl bound v)
    (hle : v ≤ w) : Above incl bound w := by
  cases incl with
  | true => exact le_trans h hle
  | false => exact lt_of_lt_of_le h hle

theorem below_not : Below (!incl) bound v <-> ¬ Above incl bound v := by
  cases incl with
  | true => exact not_le.symm
  | false => exact not_lt.symm

theorem above_not : Above (!incl) bound v <-> ¬ Below incl bound v := by
  cases incl with
  | true => exact not_le.symm
  | false => exact not_lt.symm

/-!
# Well-formed slots
-/

structure SlotMeta.Ok (s : SlotMeta num) : Prop where
  lengths : s.offsetVec.length = s.valueVec.length
  sorted : s.valueVec.Pairwise fun a b => a ≤ b
  left : s.valueVec.head? = some s.left
  right : s.valueVec.getLast? = some s.right
  bitmap : s.bitmap = s.offsetVec.toFinset

/-- The values of a slot with their offsets. -/
def SlotMeta.entries (s : SlotMeta num) : List (num × Nat) :=
  s.valueVec.zip s.offsetVec

variable {s : SlotMeta num}

omit [LinearOrder num] in
theorem SlotMeta.getElem?_entries {j : Nat} : s.entries[j]? = some (v, o) <->
      s.valueVec[j]? = some v ∧ s.offsetVec[j]? = some o := by
  rw [SlotMeta.entries, getElem?_zip_eq_some]

theorem SlotMeta.Ok.mem_offsets (h : s.Ok) :
    o ∈ s.offsetVec <-> exists v, (v, o) ∈ s.entries := by
  constructor
  · intro ho
    rcases List.getElem?_of_mem ho with ⟨j, hj⟩
    have hlt : j < s.valueVec.length := by
      rw [← h.lengths]
      exact (List.getElem?_eq_some_iff.mp hj).1
    refine ⟨s.valueVec[j], List.mem_of_getElem? (i := j) ?_⟩
    rw [SlotMeta.getElem?_entries]
    exact ⟨List.getElem?_eq_getElem hlt, hj⟩
  · intro hv
    rcases hv with ⟨v, hv⟩
    exact (List.of_mem_zip hv).2

theorem SlotMeta.Ok.mem_bitmap (h : s.Ok) :
    o ∈ s.bitmap <-> exists v, (v, o) ∈ s.entries := by
  rw [h.bitmap, mem_toFinset, h.mem_offsets]

theorem SlotMeta.Ok.left_le (h : s.Ok) (hv : v ∈ s.valueVec) : s.left ≤ v := by
  have hsorted := h.sorted
  have hleft := h.left
  cases hvalues : s.valueVec with
  | nil =>
    rw [hvalues] at hv
    cases hv
  | cons first rest =>
    rw [hvalues] at hv hleft hsorted
    have hfirst : first = s.left := Option.some.inj hleft
    rw [← hfirst]
    rcases mem_cons.mp hv with heq | hrest
    · exact le_of_eq heq.symm
    · exact rel_of_pairwise_cons hsorted hrest

theorem SlotMeta.Ok.le_right (h : s.Ok) (hv : v ∈ s.valueVec) : v ≤ s.right := by
  have hsorted := h.sorted
  rcases getLast?_eq_some_iff.mp h.right with ⟨front, hvalues⟩
  rw [hvalues] at hv hsorted
  rcases mem_append.mp hv with hfront | hlast
  · exact (pairwise_append.mp hsorted).2.2 v hfront s.right (by simp)
  · exact le_of_eq (mem_singleton.mp hlast)

theorem SlotMeta.Ok.left_mem (h : s.Ok) : s.left ∈ s.valueVec :=
  mem_of_mem_head? h.left

theorem SlotMeta.Ok.right_mem (h : s.Ok) : s.right ∈ s.valueVec :=
  mem_of_mem_getLast? h.right

omit [LinearOrder num] in
theorem SlotMeta.value_mem (h : (v, o) ∈ s.entries) : v ∈ s.valueVec :=
  (of_mem_zip h).1

/-!
# Borders
-/

theorem SlotMeta.getRightBorder_splits (h : s.Ok) (bound : num) (incl : Bool) :
    SplitsAt s.valueVec.length
      (fun j => forall v, s.valueVec[j]? = some v -> Below incl bound v)
      (s.getRightBorder bound incl) := by
  have hmono : s.valueVec.Pairwise fun a b =>
      decide (¬ Below incl bound a) = true ->
        decide (¬ Below incl bound b) = true := by
    apply h.sorted.imp
    intro a b hab ha
    rw [decide_eq_true_iff] at ha ⊢
    intro hb
    exact ha (hb.of_le hab)
  have hborder : s.getRightBorder bound incl =
      s.valueVec.findIdx fun v => decide (¬ Below incl bound v) := by
    cases incl with
    | true =>
      show s.valueVec.findIdx (fun v => decide (bound < v)) = _
      congr 1
      funext v
      exact decide_eq_decide.mpr not_le.symm
    | false =>
      show s.valueVec.findIdx (fun v => decide (bound ≤ v)) = _
      congr 1
      funext v
      exact decide_eq_decide.mpr not_lt.symm
  rw [hborder]
  have hsplit := findIdx_splits hmono
  simpa only [decide_eq_false_iff_not, not_not] using hsplit

theorem SlotMeta.getLeftBorder_splits (h : s.Ok) (bound : num) (incl : Bool) :
    SplitsAt s.valueVec.length
      (fun j => forall v, s.valueVec[j]? = some v -> ¬ Above incl bound v)
      (s.getLeftBorder bound incl) := by
  have hmono : s.valueVec.Pairwise fun a b =>
      decide (Above incl bound a) = true ->
        decide (Above incl bound b) = true := by
    apply h.sorted.imp
    intro a b hab ha
    rw [decide_eq_true_iff] at ha ⊢
    exact ha.of_le hab
  have hborder : s.getLeftBorder bound incl =
      s.valueVec.findIdx fun v => decide (Above incl bound v) := by
    cases incl with
    | true => rfl
    | false => rfl
  rw [hborder]
  have hsplit := findIdx_splits hmono
  simpa only [decide_eq_false_iff_not] using hsplit

theorem SlotMeta.Ok.lt_rightBorder (h : s.Ok) {j : Nat}
    (hj : s.entries[j]? = some (v, o)) :
    j < s.getRightBorder bound incl <-> Below incl bound v := by
  have hv := (SlotMeta.getElem?_entries.mp hj).1
  rw [(s.getRightBorder_splits h bound incl).lt_iff
    (List.getElem?_eq_some_iff.mp hv).1, hv]
  constructor
  · intro hall
    exact hall v rfl
  · intro hbelow w hw
    cases hw
    exact hbelow

theorem SlotMeta.Ok.leftBorder_le (h : s.Ok) {j : Nat}
    (hj : s.entries[j]? = some (v, o)) :
    s.getLeftBorder bound incl ≤ j <-> Above incl bound v := by
  have hv := (SlotMeta.getElem?_entries.mp hj).1
  rw [← not_lt, (s.getLeftBorder_splits h bound incl).lt_iff
    (List.getElem?_eq_some_iff.mp hv).1, hv]
  constructor
  · intro hnot
    apply Decidable.of_not_not
    intro habove
    apply hnot
    intro w hw
    cases hw
    exact habove
  · intro habove hall
    exact hall v rfl habove

/-!
# Contributions
-/

theorem SlotMeta.Ok.mem_slice (h : s.Ok) {start upto : Nat} :
    o ∈ ((s.offsetVec.take upto).drop start).toFinset <->
      exists j v, s.entries[j]? = some (v, o) ∧ start ≤ j ∧ j < upto := by
  rw [List.mem_toFinset]
  constructor
  · intro ho
    rcases List.getElem?_of_mem ho with ⟨k, hk⟩
    rw [List.getElem?_drop, List.getElem?_take] at hk
    split at hk
    · rename_i hlt
      have hbound : start + k < s.valueVec.length := by
        rw [← h.lengths]
        exact (List.getElem?_eq_some_iff.mp hk).1
      refine ⟨start + k, s.valueVec[start + k], ?_, by omega, hlt⟩
      rw [SlotMeta.getElem?_entries]
      exact ⟨List.getElem?_eq_getElem hbound, hk⟩
    · cases hk
  · intro hj
    rcases hj with ⟨j, v, hj, hfrom, hupto⟩
    apply List.mem_of_getElem? (i := j - start)
    rw [List.getElem?_drop, List.getElem?_take_of_lt (by omega),
      Nat.add_sub_cancel' hfrom]
    exact (SlotMeta.getElem?_entries.mp hj).2

theorem SlotMeta.Ok.mem_lowerThan (h : s.Ok) :
    o ∈ (s.getLowerThanData bound incl).1 <->
      exists v, (v, o) ∈ s.entries ∧ Below incl bound v := by
  have hslice := @SlotMeta.Ok.mem_slice o _ _ _ h 0 (s.getRightBorder bound incl)
  rw [drop_zero] at hslice
  rw [SlotMeta.getLowerThanData, hslice]
  constructor
  · intro hj
    rcases hj with ⟨j, v, hj, _, hlt⟩
    exact ⟨v, mem_of_getElem? hj, (h.lt_rightBorder hj).mp hlt⟩
  · intro hv
    rcases hv with ⟨v, hmem, hbelow⟩
    rcases getElem?_of_mem hmem with ⟨j, hj⟩
    exact ⟨j, v, hj, Nat.zero_le _, (h.lt_rightBorder hj).mpr hbelow⟩

theorem SlotMeta.Ok.mem_greaterThan (h : s.Ok) :
    o ∈ (s.getGreaterThanData bound incl).1 <->
      exists v, (v, o) ∈ s.entries ∧ Above incl bound v := by
  have hslice := @SlotMeta.Ok.mem_slice o _ _ _ h
    (s.getLeftBorder bound incl) s.offsetVec.length
  rw [List.take_length] at hslice
  rw [SlotMeta.getGreaterThanData, hslice]
  constructor
  · intro hj
    rcases hj with ⟨j, v, hj, hle, _⟩
    exact ⟨v, List.mem_of_getElem? hj, (h.leftBorder_le hj).mp hle⟩
  · intro hv
    rcases hv with ⟨v, hmem, habove⟩
    rcases List.getElem?_of_mem hmem with ⟨j, hj⟩
    have hlt := (List.getElem?_eq_some_iff.mp
      (SlotMeta.getElem?_entries.mp hj).2).1
    exact ⟨j, v, hj, (h.leftBorder_le hj).mpr habove, hlt⟩

theorem SlotMeta.Ok.mem_range (h : s.Ok) {lt gt : num} {le ge : Bool} :
    o ∈ (s.getRangeData lt le gt ge).1 <->
      exists v, (v, o) ∈ s.entries ∧ Above ge gt v ∧ Below le lt v := by
  rw [SlotMeta.getRangeData, h.mem_slice]
  constructor
  · intro hj
    rcases hj with ⟨j, v, hj, hle, hlt⟩
    exact ⟨v, mem_of_getElem? hj, (h.leftBorder_le hj).mp hle,
      (h.lt_rightBorder hj).mp hlt⟩
  · intro hv
    rcases hv with ⟨v, hmem, habove, hbelow⟩
    rcases getElem?_of_mem hmem with ⟨j, hj⟩
    exact ⟨j, v, hj, (h.leftBorder_le hj).mpr habove,
      (h.lt_rightBorder hj).mpr hbelow⟩

/-- A contribution that counts nothing is empty. -/
def SlotMeta.Picked.Counted (p : SlotMeta.Picked) : Prop :=
  p.2 = 0 -> p.1 = ∅

omit [LinearOrder num] in
theorem counted_both {a b : SlotMeta.Picked}
    (ha : SlotMeta.Picked.Counted a) (hb : SlotMeta.Picked.Counted b) :
    SlotMeta.Picked.Counted (RangedMap.pickBoth a b) := by
  intro hzero
  have hboth : a.2 = 0 ∧ b.2 = 0 := Nat.add_eq_zero_iff.mp hzero
  show a.1 ∪ b.1 = ∅
  rw [ha hboth.1, hb hboth.2, Finset.union_empty]

theorem SlotMeta.counted_lowerThan (s : SlotMeta num) (bound : num)
    (incl : Bool) :
    SlotMeta.Picked.Counted (s.getLowerThanData bound incl) := by
  intro hzero
  have hborder : s.getRightBorder bound incl = 0 := hzero
  show ((s.offsetVec.take (s.getRightBorder bound incl)).toFinset : Bitmap) = ∅
  rw [hborder]
  rfl

theorem SlotMeta.counted_greaterThan (s : SlotMeta num) (bound : num)
    (incl : Bool) :
    SlotMeta.Picked.Counted (s.getGreaterThanData bound incl) := by
  intro hzero
  have hborder : s.offsetVec.length ≤ s.getLeftBorder bound incl :=
    Nat.sub_eq_zero_iff_le.mp hzero
  show ((s.offsetVec.drop (s.getLeftBorder bound incl)).toFinset : Bitmap) = ∅
  rw [drop_of_length_le hborder]
  rfl

theorem SlotMeta.counted_range (s : SlotMeta num) (lt gt : num)
    (le ge : Bool) :
    SlotMeta.Picked.Counted (s.getRangeData lt le gt ge) := by
  intro hzero
  show (((s.offsetVec.take (s.getRightBorder lt le)).drop
    (s.getLeftBorder gt ge)).toFinset : Bitmap) = ∅
  have hcross : s.getRightBorder lt le ≤ s.getLeftBorder gt ge := by
    change (if s.getLeftBorder gt ge ≤ s.getRightBorder lt le then _ else _) = 0
      at hzero
    split at hzero
    · omega
    · omega
  rw [drop_of_length_le]
  · rfl
  · rw [length_take]
    omega

end Scalar
end OpenViking
