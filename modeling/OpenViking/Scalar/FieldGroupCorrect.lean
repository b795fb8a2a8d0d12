import OpenViking.Scalar.ScalarIndex
import OpenViking.Scalar.RangedMapCorrect

/-!
# A field group holds one field of every row

A group is exact when its bitmaps, its ranged map and its directory index say
what text and what number the field has at every offset.  Giving a field to an
offset that has none and taking it away again keep the group exact.
-/

namespace OpenViking
namespace Scalar

open Paths Function Assoc

variable {num : Type} [LinearOrder num]

namespace FieldBitmapGroup

/-- The keys a field text stands for in a path field or in another field. -/
def fieldKeys (isPath : Bool) (fieldStr : Str) : List Str :=
  let norm := fun key => if isPath then normalizePathKey key else key
  if ';' ∈ fieldStr then (split fieldStr).map norm else [norm fieldStr]

omit [LinearOrder num] in
theorem keysOf_eq (g : FieldBitmapGroup num) (fieldStr : Str) :
    g.keysOf fieldStr = fieldKeys g.dirIndex.isSome fieldStr := rfl

/-- The offsets under a key. -/
def bits (g : FieldBitmapGroup num) (key : Str) : Bitmap :=
  (g.bitmapGroup.find key).getD ∅

/-- The numbers of a group; a group without a ranged map has none. -/
def numbers (g : FieldBitmapGroup num) : RangedMap num :=
  g.rangedmap.getD RangedMap.empty

/-- Every key with a bitmap is bound in the directory index. -/
def AllBound (g : FieldBitmapGroup num) : Prop :=
  forall root, g.dirIndex = some root ->
    DirIndex.Binds root fun key => g.bitmapGroup.find key ≠ none

/-- The group says which text and which number every offset has. -/
structure Exact (g : FieldBitmapGroup num) (isPath : Bool)
    (text : Nat -> Option Str) (number : Nat -> Option num) : Prop where
  path : g.dirIndex.isSome = isPath
  bound : g.AllBound
  keys : forall key o, o ∈ g.bits key <->
    exists t, text o = some t ∧ key ∈ fieldKeys isPath t
  ranges : g.numbers.Ok
  values : forall o, g.numbers.valueAt o = number o
  sized : forall o, text o ≠ none ∨ number o ≠ none -> o < g.elementSize

/-!
# One key
-/

omit [LinearOrder num] in
theorem addKey_mem_bits (g : FieldBitmapGroup num) (offset : Nat)
    (key k : Str) (o : Nat) :
    o ∈ (g.addKey offset key).bits k <->
      o ∈ g.bits k ∨ (k = key ∧ o = offset) := by
  rw [addKey, bits, bits]
  cases hfind : g.bitmapGroup.find key with
  | none =>
    show o ∈ ((g.bitmapGroup.put key {offset}).find k).getD ∅ <-> _
    rw [find_put]
    split
    next heq => simp [heq, hfind]
    next hne => simp [hne]
  | some bitmap =>
    show o ∈ ((g.bitmapGroup.put key (bitmap ∪ {offset})).find k).getD ∅ <-> _
    rw [find_put]
    split
    next heq => simp [heq, hfind, or_comm]
    next hne => simp [hne]

omit [LinearOrder num] in
theorem deleteKey_mem_bits (g : FieldBitmapGroup num) (offset : Nat)
    (key k : Str) (o : Nat) :
    o ∈ (g.deleteKey offset key).bits k <->
      o ∈ g.bits k ∧ ¬ (k = key ∧ o = offset) := by
  rw [deleteKey, bits, bits]
  show o ∈ ((g.bitmapGroup.put key
    (((g.bitmapGroup.find key).getD ∅).erase offset)).find k).getD ∅ <-> _
  rw [find_put]
  split
  next heq =>
    rw [heq, Option.getD_some, Finset.mem_erase]
    tauto
  next hne => simp [hne]

omit [LinearOrder num] in
theorem addKey_frame (g : FieldBitmapGroup num) (offset : Nat) (key : Str) :
    (g.addKey offset key).rangedmap = g.rangedmap ∧
      (g.addKey offset key).elementSize = g.elementSize ∧
      (g.addKey offset key).typeId = g.typeId ∧
      (g.addKey offset key).dirIndex.isSome = g.dirIndex.isSome := by
  rw [addKey]
  cases g.bitmapGroup.find key with
  | none =>
    refine ⟨rfl, rfl, rfl, ?_⟩
    cases g.dirIndex with
    | none => rfl
    | some root => rfl
  | some bitmap => exact ⟨rfl, rfl, rfl, rfl⟩

variable {g : FieldBitmapGroup num}

omit [LinearOrder num] in
theorem AllBound.addKey (h : g.AllBound)
    (offset : Nat) (key : Str) : (g.addKey offset key).AllBound := by
  intro root hroot
  rw [FieldBitmapGroup.addKey] at hroot ⊢
  cases hfind : g.bitmapGroup.find key with
  | none =>
    rw [hfind] at hroot
    rcases Option.map_eq_some_iff.mp hroot with ⟨old, hold, heq⟩
    rw [← heq]
    have hkeys : (fun k => k = key ∨ g.bitmapGroup.find k ≠ none) =
        fun k => (g.bitmapGroup.put key {offset}).find k ≠ none := by
      funext k
      rw [find_put]
      split
      next heq => simp [heq]
      next hne => simp [hne]
    have hbinds := (h old hold).addKey key
    rw [hkeys] at hbinds
    exact hbinds
  | some bitmap =>
    rw [hfind] at hroot
    have hkeys : (fun k => g.bitmapGroup.find k ≠ none) = fun k =>
          (g.bitmapGroup.put key (bitmap ∪ {offset})).find k ≠ none := by
      funext k
      rw [find_put]
      split
      next heq => simp [heq, hfind]
      next hne => rfl
    have hbinds := h root hroot
    rw [hkeys] at hbinds
    exact hbinds

omit [LinearOrder num] in
theorem AllBound.deleteKey (h : g.AllBound)
    (offset : Nat) {key : Str} (hkey : g.bitmapGroup.find key ≠ none) :
    (g.deleteKey offset key).AllBound := by
  intro root hroot
  have hkeys : (fun k => g.bitmapGroup.find k ≠ none) =
      fun k => (g.deleteKey offset key).bitmapGroup.find k ≠ none := by
    funext k
    show _ = ((g.bitmapGroup.put key _).find k ≠ none)
    rw [find_put]
    split
    next heq => simp [heq, hkey]
    next hne => rfl
  have hbinds := h root hroot
  rw [hkeys] at hbinds
  exact hbinds

/-!
# All keys of a text
-/

omit [LinearOrder num] in
theorem addKeys_mem_bits (keys : List Str) (g : FieldBitmapGroup num)
    (offset : Nat) (k : Str) (o : Nat) :
    o ∈ (keys.foldl (fun g key => g.addKey offset key) g).bits k <->
      o ∈ g.bits k ∨ (k ∈ keys ∧ o = offset) := by
  induction keys generalizing g with
  | nil => simp
  | cons key rest ih =>
    rw [List.foldl_cons, ih, addKey_mem_bits, List.mem_cons]
    tauto

omit [LinearOrder num] in
theorem deleteKeys_mem_bits (keys : List Str) (g : FieldBitmapGroup num)
    (offset : Nat) (k : Str) (o : Nat) :
    o ∈ (keys.foldl (fun g key => g.deleteKey offset key) g).bits k <->
      o ∈ g.bits k ∧ ¬ (k ∈ keys ∧ o = offset) := by
  induction keys generalizing g with
  | nil => simp
  | cons key rest ih =>
    rw [List.foldl_cons, ih, deleteKey_mem_bits, List.mem_cons]
    tauto

omit [LinearOrder num] in
theorem addKeys_frame (keys : List Str) (g : FieldBitmapGroup num)
    (offset : Nat) :
    let g' := keys.foldl (fun g key => g.addKey offset key) g
    g'.rangedmap = g.rangedmap ∧ g'.elementSize = g.elementSize ∧
      g'.typeId = g.typeId ∧ g'.dirIndex.isSome = g.dirIndex.isSome := by
  induction keys generalizing g with
  | nil => exact ⟨rfl, rfl, rfl, rfl⟩
  | cons key rest ih =>
    have hone := addKey_frame g offset key
    have hrest := ih (g.addKey offset key)
    exact ⟨hrest.1.trans hone.1, hrest.2.1.trans hone.2.1,
      hrest.2.2.1.trans hone.2.2.1, hrest.2.2.2.trans hone.2.2.2⟩

omit [LinearOrder num] in
theorem deleteKeys_frame (keys : List Str) (g : FieldBitmapGroup num)
    (offset : Nat) :
    let g' := keys.foldl (fun g key => g.deleteKey offset key) g
    g'.rangedmap = g.rangedmap ∧ g'.elementSize = g.elementSize ∧
      g'.typeId = g.typeId ∧ g'.dirIndex = g.dirIndex := by
  induction keys generalizing g with
  | nil => exact ⟨rfl, rfl, rfl, rfl⟩
  | cons key rest ih => exact ih (g.deleteKey offset key)

omit [LinearOrder num] in
theorem AllBound.addKeys (h : g.AllBound)
    (offset : Nat) (keys : List Str) :
    (keys.foldl (fun g key => g.addKey offset key) g).AllBound := by
  induction keys generalizing g with
  | nil => exact h
  | cons key rest ih => exact ih (h.addKey offset key)

omit [LinearOrder num] in
theorem AllBound.deleteKeys (h : g.AllBound)
    (offset : Nat) {keys : List Str}
    (hkeys : forall key, key ∈ keys -> g.bitmapGroup.find key ≠ none) :
    (keys.foldl (fun g key => g.deleteKey offset key) g).AllBound := by
  induction keys generalizing g with
  | nil => exact h
  | cons key rest ih =>
    apply ih (h.deleteKey offset (hkeys key List.mem_cons_self))
    intro k hk
    show (g.bitmapGroup.put key _).find k ≠ none
    rw [find_put]
    split
    next => exact Option.some_ne_none _
    next => exact hkeys k (List.mem_cons_of_mem _ hk)

/-!
# One field
-/

variable {g : FieldBitmapGroup num} {isPath : Bool} {text : Nat -> Option Str}
  {number : Nat -> Option num}

omit [LinearOrder num] in
theorem find_ne_none_of_mem_bits {key : Str} {o : Nat} (h : o ∈ g.bits key) :
    g.bitmapGroup.find key ≠ none := by
  intro hnone
  rw [bits, hnone] at h
  cases h

variable {offset : Nat}

section

variable (h : g.Exact isPath text number)

include h

theorem Exact.addFieldStr (hnone : text offset = none) (fieldStr : Str) :
    (g.addFieldStr fieldStr offset).2.Exact isPath
      (update text offset (some fieldStr)) number := by
  have hframe := addKeys_frame (g.keysOf fieldStr) g offset
  have hbits := addKeys_mem_bits (g.keysOf fieldStr) g offset
  have hkeys : g.keysOf fieldStr = fieldKeys isPath fieldStr := by
    rw [keysOf_eq, h.path]
  have hnumbers : (g.addFieldStr fieldStr offset).2.numbers = g.numbers :=
    congrArg (fun m : Option (RangedMap num) => m.getD RangedMap.empty) hframe.1
  constructor
  · exact hframe.2.2.2.trans h.path
  · exact h.bound.addKeys offset (g.keysOf fieldStr)
  · intro key o
    have hkey := hbits key o
    rw [hkeys] at hkey
    show o ∈ ((g.keysOf fieldStr).foldl _ g).bits key <-> _
    rw [hkeys, hkey, h.keys, update_apply]
    split
    next heq =>
      rw [heq, hnone]
      simp
    next hne => simp [hne]
  · rw [hnumbers]
    exact h.ranges
  · intro o
    rw [hnumbers]
    exact h.values o
  · intro o ho
    show o < max (offset + 1) ((g.keysOf fieldStr).foldl _ g).elementSize
    rw [hframe.2.1, update_apply] at *
    split at ho
    next heq => omega
    next hne =>
      have := h.sized o ho
      omega

theorem Exact.deleteFieldStr
    {fieldStr : Str} (hsome : text offset = some fieldStr) :
    (g.deleteFieldStr fieldStr offset).2.Exact isPath
      (update text offset none) number := by
  have hsize : ¬ g.elementSize ≤ offset := by
    have := h.sized offset (Or.inl (by rw [hsome]; exact Option.some_ne_none _))
    omega
  have hkeys : g.keysOf fieldStr = fieldKeys isPath fieldStr := by
    rw [keysOf_eq, h.path]
  have hframe := deleteKeys_frame (g.keysOf fieldStr) g offset
  have hbits := deleteKeys_mem_bits (g.keysOf fieldStr) g offset
  have hheld : forall key, key ∈ g.keysOf fieldStr ->
      g.bitmapGroup.find key ≠ none := by
    intro key hkey
    rw [hkeys] at hkey
    exact find_ne_none_of_mem_bits
      ((h.keys key offset).mpr ⟨fieldStr, hsome, hkey⟩)
  rw [FieldBitmapGroup.deleteFieldStr, if_neg hsize]
  have hnumbers : ((g.keysOf fieldStr).foldl
      (fun g key => g.deleteKey offset key) g).numbers = g.numbers :=
    congrArg (fun m : Option (RangedMap num) => m.getD RangedMap.empty) hframe.1
  constructor
  · show (List.foldl _ g _).dirIndex.isSome = isPath
    rw [hframe.2.2.2]
    exact h.path
  · exact h.bound.deleteKeys offset hheld
  · intro key o
    show o ∈ ((g.keysOf fieldStr).foldl _ g).bits key <-> _
    rw [hbits, h.keys, update_apply, hkeys]
    split
    next heq =>
      rw [heq, hsome]
      simp
    next hne => simp [hne]
  · show ((g.keysOf fieldStr).foldl _ g).numbers.Ok
    rw [hnumbers]
    exact h.ranges
  · intro o
    show ((g.keysOf fieldStr).foldl _ g).numbers.valueAt o = _
    rw [hnumbers]
    exact h.values o
  · intro o ho
    show o < ((g.keysOf fieldStr).foldl _ g).elementSize
    rw [hframe.2.1]
    rw [update_apply] at ho
    split at ho
    next heq =>
      rw [heq]
      omega
    next hne => exact h.sized o ho

theorem Exact.addFieldDbl (hnone : number offset = none) (fieldDbl : num) :
    (g.addFieldDbl fieldDbl offset).2.Exact isPath text
      (update number offset (some fieldDbl)) := by
  have hvalue : g.numbers.valueAt offset = none := by rw [h.values, hnone]
  rcases h.ranges.addOffsetAndScore hvalue fieldDbl with
    ⟨map', hadd, hok, hvalues⟩
  have hresult : (g.addFieldDbl fieldDbl offset).2 =
      { g with rangedmap := some map'
               elementSize := max (offset + 1) g.elementSize } := by
    rw [numbers] at hadd
    rw [FieldBitmapGroup.addFieldDbl]
    simp only [hadd]
    rfl
  rw [hresult]
  constructor
  · exact h.path
  · exact h.bound
  · exact h.keys
  · exact hok
  · intro o
    show map'.valueAt o = _
    rw [hvalues, update_apply, h.values]
  · intro o ho
    show o < max (offset + 1) g.elementSize
    rw [update_apply] at ho
    split at ho
    next heq => omega
    next hne =>
      have := h.sized o ho
      omega

theorem Exact.deleteFieldDbl
    {fieldDbl : num} (hsome : number offset = some fieldDbl) :
    (g.deleteFieldDbl offset).2.Exact isPath text
      (update number offset none) := by
  have hsize : ¬ g.elementSize ≤ offset := by
    have := h.sized offset (Or.inr (by rw [hsome]; exact Option.some_ne_none _))
    omega
  have hvalue : g.numbers.valueAt offset = some fieldDbl := by
    rw [h.values, hsome]
  rcases h.ranges.deleteOffset hvalue with ⟨map', hdelete, hok, hvalues⟩
  have hresult : (g.deleteFieldDbl offset).2 =
      { g with rangedmap := some map' } := by
    rw [numbers] at hdelete
    rw [FieldBitmapGroup.deleteFieldDbl, if_neg hsize]
    simp only [hdelete]
  rw [hresult]
  constructor
  · exact h.path
  · exact h.bound
  · exact h.keys
  · exact hok
  · intro o
    show map'.valueAt o = _
    rw [hvalues, update_apply, h.values]
  · intro o ho
    rw [update_apply] at ho
    split at ho
    next heq =>
      rw [heq]
      show offset < g.elementSize
      omega
    next hne => exact h.sized o ho

end

theorem exact_new {typeId : GroupType} :
    (new typeId : FieldBitmapGroup num).Exact (decide (typeId = .dir))
      (fun _ => none) (fun _ => none) := by
  have hnumbers : (new typeId : FieldBitmapGroup num).numbers =
      RangedMap.empty := by
    cases typeId with
    | _ => rfl
  constructor
  · cases typeId with
    | _ => rfl
  · intro root hroot
    have hempty : root = DirIndex.empty := by
      cases typeId with
      | dir => exact (Option.some.inj hroot).symm
      | _ => cases hroot
    have hkeys : (fun key => (new typeId : FieldBitmapGroup num).bitmapGroup.find
        key ≠ none) = fun _ => False := by
      funext key
      simp [new]
    rw [hempty, hkeys]
    exact DirIndex.binds_empty
  · intro key o
    simp [bits, new]
  · rw [hnumbers]
    exact RangedMap.ok_empty
  · intro o
    rw [hnumbers]
    rfl
  · intro o ho
    simp at ho

end FieldBitmapGroup

end Scalar
end OpenViking
