import OpenViking.Scalar.RangedMap

/-!
# Ranges of a ranged map

The slots of a well-formed map follow one another, so the searches find the
slots a range touches, and the offsets collected from them are exactly those
whose value lies in the range.
-/

namespace OpenViking
namespace Scalar

open RangedMap List

variable {num : Type} [LinearOrder num]

/-- Well-formed slots in ascending order. -/
structure SlotsOk (slots : List (SlotMeta num)) : Prop where
  each : forall s, s ∈ slots -> s.Ok
  ordered : slots.Pairwise fun a b => a.right ≤ b.left

/-- All values of the slots with their offsets. -/
def slotEntries (slots : List (SlotMeta num)) : List (num × Nat) :=
  slots.flatMap SlotMeta.entries

variable {slots : List (SlotMeta num)}

omit [LinearOrder num] in
theorem mem_slotEntries {e : num × Nat} : e ∈ slotEntries slots <->
      exists (i : Nat) (s : SlotMeta num), slots[i]? = some s ∧ e ∈ s.entries := by
  rw [slotEntries, mem_flatMap]
  constructor
  · intro h
    rcases h with ⟨s, hs, he⟩
    rcases getElem?_of_mem hs with ⟨i, hi⟩
    exact ⟨i, s, hi, he⟩
  · intro h
    rcases h with ⟨i, s, hi, he⟩
    exact ⟨s, mem_of_getElem? hi, he⟩

variable {i : Nat} {s : SlotMeta num}

theorem SlotsOk.at (h : SlotsOk slots) (hi : slots[i]? = some s) : s.Ok :=
  h.each s (mem_of_getElem? hi)

theorem SlotsOk.right_le_left (h : SlotsOk slots) {j : Nat} {a b : SlotMeta num}
    (hi : slots[i]? = some a) (hj : slots[j]? = some b) (hij : i < j) :
    a.right ≤ b.left := by
  rcases List.getElem?_eq_some_iff.mp hi with ⟨hilt, ha⟩
  rcases List.getElem?_eq_some_iff.mp hj with ⟨hjlt, hb⟩
  rw [← ha, ← hb]
  exact List.pairwise_iff_getElem.mp h.ordered i j hilt hjlt hij

theorem SlotMeta.Ok.left_le_right (h : s.Ok) : s.left ≤ s.right :=
  h.left_le h.right_mem

theorem SlotsOk.right_le_right (h : SlotsOk slots) {j : Nat} {a b : SlotMeta num}
    (hi : slots[i]? = some a) (hj : slots[j]? = some b) (hij : i ≤ j) :
    a.right ≤ b.right := by
  rcases Nat.lt_or_eq_of_le hij with hlt | heq
  · exact le_trans (h.right_le_left hi hj hlt) (h.at hj).left_le_right
  · rw [heq, hj] at hi
    cases hi
    exact le_refl _

/-!
# Searching slots
-/

variable {m : RangedMap num}

/-- A probe that compares the two borders of a slot with a bound splits the slots. -/
theorem slot_splits (h : SlotsOk m.slots) {below above : num -> Prop}
    [DecidablePred below] [DecidablePred above]
    (hdown : forall x y, x ≤ y -> below y -> below x)
    (hgap : forall x y, x ≤ y -> ¬ above y -> below x) {probe : Nat -> Ordering}
    (hprobe : forall i, probe i =
      match m.slots[i]? with
      | none => .gt
      | some slot =>
        if below slot.right then .lt else if above slot.left then .gt else .eq) :
    SplitsAt m.slots.length
      (fun i => forall s, m.slots[i]? = some s -> below s.right)
      (bisect probe m.slots.length 0 m.slots.length) := by
  have hprobes : Probes m.slots.length
      (fun i => forall s, m.slots[i]? = some s -> below s.right) probe := by
    constructor
    · intro i j hij hj hbefore s hs
      have hat := getElem?_eq_getElem hj
      exact hdown _ _ (h.right_le_right hs hat hij) (hbefore _ hat)
    · intro i hi hlt s hs
      rw [hprobe, hs] at hlt
      by_cases hbelow : below s.right
      · exact hbelow
      · simp only [if_neg hbelow] at hlt
        split at hlt
        · cases hlt
        · cases hlt
    · intro i hi hgt hbefore
      have hat := getElem?_eq_getElem hi
      rw [hprobe, hat] at hgt
      simp only [if_pos (hbefore _ hat)] at hgt
      cases hgt
    · intro i hi heq
      have hat := getElem?_eq_getElem hi
      rw [hprobe, hat] at heq
      by_cases hbelow : below m.slots[i].right
      · simp only [if_pos hbelow] at heq
        cases heq
      by_cases habove : above m.slots[i].left
      · simp only [if_neg hbelow, if_pos habove] at heq
        cases heq
      · constructor
        · intro hbefore
          exact hbelow (hbefore _ hat)
        · intro j hj s hs
          exact hgap _ _ (h.right_le_left hs hat hj) habove
  exact bisect_splits hprobes _ _ _ (by omega) (by omega) (le_refl _)
    (by intro i hi; omega) (by intro i hi hn; omega)

theorem slotLowerBound_splits (h : SlotsOk m.slots) (val : num) :
    SplitsAt m.slots.length
      (fun i => forall s, m.slots[i]? = some s -> s.right < val)
      (m.slotLowerBoundIdx val) :=
  slot_splits h (fun _ _ => lt_of_le_of_lt)
    (fun _ _ hle hnot => lt_of_le_of_lt hle (not_le.mp hnot)) fun _ => rfl

theorem slotUpperBound_splits (h : SlotsOk m.slots) (val : num) :
    SplitsAt m.slots.length
      (fun i => forall s, m.slots[i]? = some s -> s.right ≤ val)
      (m.slotUpperBoundIdx val) :=
  slot_splits h (fun _ _ => le_trans)
    (fun _ _ hle hnot => le_trans hle (not_lt.mp hnot)) fun _ => rfl

theorem findLeftSlotIndex_le (h : SlotsOk m.slots) {bound : num} {incl : Bool}
    (hi : m.slots[i]? = some s) :
    m.findLeftSlotIndex bound incl ≤ i <-> Above incl bound s.right := by
  have hlt := (List.getElem?_eq_some_iff.mp hi).1
  cases incl with
  | true =>
    show m.slotLowerBoundIdx bound ≤ i <-> bound ≤ s.right
    rw [← not_lt, (slotLowerBound_splits h bound).lt_iff hlt, hi, ← not_lt]
    simp
  | false =>
    show m.slotUpperBoundIdx bound ≤ i <-> bound < s.right
    rw [← not_lt, (slotUpperBound_splits h bound).lt_iff hlt, hi, ← not_le]
    simp

/-- The slot a search settles on, moved down when it starts above the bound. -/
private theorem settled (h : SlotsOk slots) (before starts : num -> Prop) {k : Nat}
    (hsplit : SplitsAt slots.length
      (fun i => forall s, slots[i]? = some s -> before s.right) k)
    (hstarts : forall s, s ∈ slots -> before s.right -> starts s.left)
    (hpast : forall v w, ¬ before v -> v ≤ w -> ¬ starts w)
    (hdown : forall v w, starts w -> v ≤ w -> starts v)
    {last : Nat} (hlast : last = min k (slots.length - 1))
    (hs : slots[last]? = some s) {r : Int}
    (hin : starts s.left -> r = last) (hout : ¬ starts s.left -> r = last - 1)
    {t : SlotMeta num} (hi : slots[i]? = some t) :
    (i : Int) ≤ r <-> starts t.left := by
  have hlen := (List.getElem?_eq_some_iff.mp hi).1
  have hlower : forall {j : Nat} {u : SlotMeta num}, slots[j]? = some u ->
      j < k -> starts u.left := by
    intro j u hj hjk
    exact hstarts u (List.mem_of_getElem? hj) (hsplit.below j hjk u hj)
  have hk := hsplit.le
  by_cases hstart : starts s.left
  · rw [hin hstart]
    constructor
    · intro hle
      rcases Nat.lt_or_eq_of_le (Int.ofNat_le.mp hle) with hilt | heq
      · exact hdown _ _ hstart
          (le_trans (h.at hi).left_le_right (h.right_le_left hi hs hilt))
      · rw [heq, hs] at hi
        cases hi
        exact hstart
    · intro hti
      by_cases hle : i ≤ last
      · exact Int.ofNat_le.mpr hle
      have hkl : last = k := by omega
      have hnot : ¬ before s.right := by
        intro hbefore
        apply hsplit.above k (le_refl _) (by omega)
        intro u hu
        rw [← hkl, hs] at hu
        cases hu
        exact hbefore
      exact absurd hti (hpast _ _ hnot (h.right_le_left hs hi (by omega)))
  · rw [hout hstart]
    have hkl : k ≤ last := by
      apply Nat.le_of_not_lt
      intro hlt
      exact hstart (hlower hs hlt)
    constructor
    · intro hle
      exact hlower hi (by omega)
    intro hti
    by_cases hlt : i < last
    · omega
    · apply absurd (hdown _ _ hti _) hstart
      rcases Nat.lt_or_eq_of_le (Nat.le_of_not_lt hlt) with hgt | heq
      · exact le_trans (h.at hs).left_le_right (h.right_le_left hs hi hgt)
      · rw [heq, hi] at hs
        cases hs
        exact le_refl _

theorem le_findRightSlotIndex (h : SlotsOk m.slots) {bound : num}
    {incl : Bool} (hi : m.slots[i]? = some s) :
    (i : Int) ≤ m.findRightSlotIndex bound incl <-> Below incl bound s.left := by
  have hlen := (List.getElem?_eq_some_iff.mp hi).1
  cases incl with
  | true =>
    have hlast : min (m.slotUpperBoundIdx bound) (m.slots.length - 1) <
        m.slots.length := by omega
    have hat := List.getElem?_eq_getElem hlast
    have hfind : m.findRightSlotIndex bound true =
        if bound < (m.slots[min (m.slotUpperBoundIdx bound)
          (m.slots.length - 1)]).left then
          ((min (m.slotUpperBoundIdx bound) (m.slots.length - 1) : Nat) : Int) - 1
        else ((min (m.slotUpperBoundIdx bound) (m.slots.length - 1) : Nat)
          : Int) := by
      rw [findRightSlotIndex, if_pos rfl]
      simp only [hat]
    apply settled h (fun v => v ≤ bound) (fun v => v ≤ bound)
      (slotUpperBound_splits h bound) _ _ _ rfl hat _ _ hi
    · intro u hu hbefore
      exact le_trans (h.each u hu).left_le_right hbefore
    · intro v w hnot hle hw
      exact hnot (le_trans hle hw)
    · intro v w hw hle
      exact le_trans hle hw
    · intro hstart
      rw [hfind, if_neg (not_lt.mpr hstart)]
    · intro hstart
      rw [hfind, if_pos (not_le.mp hstart)]
  | false =>
    have hlast : min (m.slotLowerBoundIdx bound) (m.slots.length - 1) <
        m.slots.length := by omega
    have hat := List.getElem?_eq_getElem hlast
    have hfind : m.findRightSlotIndex bound false =
        if bound ≤ (m.slots[min (m.slotLowerBoundIdx bound)
          (m.slots.length - 1)]).left then
          ((min (m.slotLowerBoundIdx bound) (m.slots.length - 1) : Nat) : Int) - 1
        else ((min (m.slotLowerBoundIdx bound) (m.slots.length - 1) : Nat)
          : Int) := by
      rw [findRightSlotIndex, if_neg (by decide)]
      simp only [hat]
    apply settled h (fun v => v < bound) (fun v => v < bound)
      (slotLowerBound_splits h bound) _ _ _ rfl hat _ _ hi
    · intro u hu hbefore
      exact lt_of_le_of_lt (h.each u hu).left_le_right hbefore
    · intro v w hnot hle hw
      exact hnot (lt_of_le_of_lt hle hw)
    · intro v w hw hle
      exact lt_of_le_of_lt hle hw
    · intro hstart
      rw [hfind, if_neg (not_le.mpr hstart)]
    · intro hstart
      rw [hfind, if_pos (not_lt.mp hstart)]

theorem findRightSlotIndex_bounds (m : RangedMap num) (bound : num)
    (incl : Bool) (hne : m.slots ≠ []) :
    -1 ≤ m.findRightSlotIndex bound incl ∧
      m.findRightSlotIndex bound incl < m.slots.length := by
  have hpos : 0 < m.slots.length := length_pos_iff.mpr hne
  rw [findRightSlotIndex]
  cases incl with
  | true =>
    simp only [if_true]
    split
    · split
      · omega
      · omega
    · omega
  | false =>
    simp only [Bool.false_eq_true, if_false]
    split
    · split
      · omega
      · omega
    · omega

theorem findLeftSlotIndex_le_length (h : SlotsOk m.slots) (bound : num)
    (incl : Bool) : m.findLeftSlotIndex bound incl ≤ m.slots.length := by
  cases incl with
  | true => exact (slotLowerBound_splits h bound).le
  | false => exact (slotUpperBound_splits h bound).le

/-!
# Collecting a range
-/

/-- Some entry of the offset satisfies a test of its slot and its value. -/
def Somewhere (slots : List (SlotMeta num)) (o : Nat)
    (test : Nat -> num -> Prop) : Prop :=
  exists (i : Nat) (s : SlotMeta num) (v : num),
    slots[i]? = some s ∧ (v, o) ∈ s.entries ∧ test i v

variable {o : Nat}

omit [LinearOrder num] in
theorem somewhere_or {p q : Nat -> num -> Prop} :
    (Somewhere slots o p ∨ Somewhere slots o q) <->
      Somewhere slots o fun i v => p i v ∨ q i v := by
  constructor
  · intro h
    rcases h with ⟨i, s, v, hi, hv, hp⟩ | ⟨i, s, v, hi, hv, hq⟩
    · exact ⟨i, s, v, hi, hv, .inl hp⟩
    · exact ⟨i, s, v, hi, hv, .inr hq⟩
  · intro h
    rcases h with ⟨i, s, v, hi, hv, hp | hq⟩
    · exact .inl ⟨i, s, v, hi, hv, hp⟩
    · exact .inr ⟨i, s, v, hi, hv, hq⟩

omit [LinearOrder num] in
theorem somewhere_congr {p q : Nat -> num -> Prop}
    (h : forall (i : Nat) (s : SlotMeta num) (v : num), slots[i]? = some s ->
      (v, o) ∈ s.entries -> (p i v <-> q i v)) :
    Somewhere slots o p <-> Somewhere slots o q := by
  constructor
  · intro hp
    rcases hp with ⟨i, s, v, hi, hv, hp⟩
    exact ⟨i, s, v, hi, hv, (h i s v hi hv).mp hp⟩
  · intro hq
    rcases hq with ⟨i, s, v, hi, hv, hq⟩
    exact ⟨i, s, v, hi, hv, (h i s v hi hv).mpr hq⟩

omit [LinearOrder num] in
theorem somewhere_iff {test : num -> Prop} :
    Somewhere slots o (fun _ v => test v) <->
      exists v, (v, o) ∈ slotEntries slots ∧ test v := by
  constructor
  · intro h
    rcases h with ⟨i, s, v, hi, hv, htest⟩
    exact ⟨v, mem_slotEntries.mpr ⟨i, s, hi, hv⟩, htest⟩
  · intro h
    rcases h with ⟨v, hv, htest⟩
    rcases mem_slotEntries.mp hv with ⟨i, s, hi, hmem⟩
    exact ⟨i, s, v, hi, hmem, htest⟩

private def addWhole (acc : SlotMeta.Picked) (slot : SlotMeta num) :
    SlotMeta.Picked :=
  (acc.1 ∪ slot.bitmap, acc.2 + slot.offsetVec.length)

omit [LinearOrder num] in
private theorem wholeSlots_from (slots : List (SlotMeta num))
    (acc : SlotMeta.Picked) (o : Nat) :
    (o ∈ (slots.foldl addWhole acc).1 <->
      o ∈ acc.1 ∨ exists s, s ∈ slots ∧ o ∈ s.bitmap) ∧
    acc.2 ≤ (slots.foldl addWhole acc).2 ∧
    forall s, s ∈ slots ->
      s.offsetVec.length ≤ (slots.foldl addWhole acc).2 := by
  induction slots generalizing acc with
  | nil =>
    refine ⟨by simp, le_refl _, ?_⟩
    intro s hs
    cases hs
  | cons slot rest ih =>
    rcases ih (addWhole acc slot) with ⟨hmem, hle, heach⟩
    have hgrow : (addWhole acc slot).2 = acc.2 + slot.offsetVec.length := rfl
    rw [foldl_cons]
    refine ⟨?_, by omega, ?_⟩
    · rw [hmem, addWhole, Finset.mem_union]
      simp only [mem_cons, exists_eq_or_imp, or_assoc]
    · intro s hs
      rcases mem_cons.mp hs with heq | hrest
      · rw [heq]
        omega
      · exact heach s hrest

omit [LinearOrder num] in
theorem mem_wholeSlots : o ∈ (wholeSlots slots).1 <->
      exists s, s ∈ slots ∧ o ∈ s.bitmap := by
  have h := (wholeSlots_from slots (∅, 0) o).1
  rw [wholeSlots]
  change o ∈ (slots.foldl addWhole (∅, 0)).1 <-> _
  rw [h]
  simp

theorem counted_wholeSlots (h : forall s, s ∈ slots -> s.Ok) :
    SlotMeta.Picked.Counted (wholeSlots slots) := by
  intro hzero
  apply Finset.eq_empty_of_forall_notMem
  intro o ho
  rcases mem_wholeSlots.mp ho with ⟨s, hs, hbit⟩
  have hlen : s.offsetVec.length ≤ (wholeSlots slots).2 :=
    (wholeSlots_from slots (∅, 0) o).2.2 s hs
  have hnone : s.offsetVec.length = 0 := by omega
  rw [(h s hs).bitmap, mem_toFinset, length_eq_zero_iff.mp hnone]
    at hbit
  cases hbit

theorem mem_wholeSlots_iff {part : List (SlotMeta num)}
    (h : SlotsOk slots) {inPart : Nat -> Prop}
    (hpart : forall s, s ∈ part <-> exists i, inPart i ∧ slots[i]? = some s) :
    o ∈ (wholeSlots part).1 <->
      Somewhere slots o fun i _ => inPart i := by
  rw [mem_wholeSlots]
  constructor
  · intro hs
    rcases hs with ⟨s, hs, ho⟩
    rcases (hpart s).mp hs with ⟨i, hin, hi⟩
    rcases (h.at hi).mem_bitmap.mp ho with ⟨v, hv⟩
    exact ⟨i, s, v, hi, hv, hin⟩
  · intro hs
    rcases hs with ⟨i, s, v, hi, hv, hin⟩
    exact ⟨s, (hpart s).mpr ⟨i, hin, hi⟩, (h.at hi).mem_bitmap.mpr ⟨v, hv⟩⟩

omit [LinearOrder num] in
theorem mem_drop_take {k n : Nat} (s : SlotMeta num) : s ∈ (slots.take n).drop k <->
      exists i, (k ≤ i ∧ i < n) ∧ slots[i]? = some s := by
  rw [mem_iff_getElem?]
  constructor
  · intro h
    rcases h with ⟨j, hj⟩
    rw [getElem?_drop, getElem?_take] at hj
    split at hj
    · exact ⟨k + j, by omega, hj⟩
    · cases hj
  · intro h
    rcases h with ⟨i, hin, hi⟩
    refine ⟨i - k, ?_⟩
    rw [getElem?_drop, getElem?_take_of_lt (by omega),
      Nat.add_sub_cancel' (by omega)]
    exact hi

variable {pick : SlotMeta num -> SlotMeta.Picked}

omit [LinearOrder num] in
theorem counted_pickAt {idx : Int}
    (h : forall s, SlotMeta.Picked.Counted (pick s)) :
    SlotMeta.Picked.Counted (pickAt slots idx pick) := by
  intro hzero
  rw [pickAt] at hzero ⊢
  by_cases hneg : idx < 0
  · rw [if_pos hneg]
  · rw [if_neg hneg] at hzero ⊢
    cases hslot : slots[idx.toNat]? with
    | none => rfl
    | some s =>
      rw [hslot] at hzero
      exact h s hzero

/-- What the slot found by an index contributes. -/
theorem mem_pickAt (h : SlotsOk slots) (idx : Int)
    {test : num -> Prop}
    (hpick : forall s, s.Ok -> (o ∈ (pick s).1 <->
      exists v, (v, o) ∈ s.entries ∧ test v)) :
    o ∈ (pickAt slots idx pick).1 <->
      Somewhere slots o fun i v => (i : Int) = idx ∧ test v := by
  rw [pickAt]
  by_cases hneg : idx < 0
  · rw [if_pos hneg]
    constructor
    · nofun
    · intro hi
      rcases hi with ⟨i, s, v, _, _, hidx, _⟩
      omega
  · rw [if_neg hneg]
    cases hslot : slots[idx.toNat]? with
    | none =>
      constructor
      · nofun
      · intro hi
        rcases hi with ⟨i, s, v, hi, _, hidx, _⟩
        have heq : idx.toNat = i := by omega
        rw [heq, hi] at hslot
        cases hslot
    | some s =>
      show o ∈ (pick s).1 <-> _
      rw [hpick s (h.at hslot)]
      constructor
      · intro hv
        rcases hv with ⟨v, hv, htest⟩
        exact ⟨idx.toNat, s, v, hslot, hv, by omega, htest⟩
      · intro hi
        rcases hi with ⟨i, t, v, hi, hv, hidx, htest⟩
        have heq : idx.toNat = i := by omega
        rw [heq, hi] at hslot
        cases hslot
        exact ⟨v, hv, htest⟩

/-!
# Ranges and their complements
-/

/-- Where the slot of a value lies to the slots its range ends in. -/
structure Located (m : RangedMap num) (lt : num) (le : Bool) (gt : num)
    (ge : Bool) (i : Nat) (v : num) : Prop where
  before : i < m.findLeftSlotIndex gt ge -> ¬ Above ge gt v
  after : m.findLeftSlotIndex gt ge < i -> Above ge gt v
  beyond : m.findRightSlotIndex lt le < i -> ¬ Below le lt v
  within : (i : Int) < m.findRightSlotIndex lt le -> Below le lt v
  length : i < m.slots.length

theorem located (h : SlotsOk m.slots) (lt : num) (le : Bool) (gt : num)
    (ge : Bool) {v : num}
    (hi : m.slots[i]? = some s) (hv : (v, o) ∈ s.entries) :
    Located m lt le gt ge i v := by
  have hvalue := SlotMeta.value_mem hv
  have hok := h.at hi
  have hilt := (List.getElem?_eq_some_iff.mp hi).1
  constructor
  · intro hlt habove
    have hle := (findLeftSlotIndex_le h hi).mpr
      (habove.of_le (hok.le_right hvalue))
    omega
  · intro hlt
    have hat := List.getElem?_eq_getElem (Nat.lt_trans hlt hilt)
    have habove := (findLeftSlotIndex_le h hat).mp (le_refl _)
    exact habove.of_le
      (le_trans (h.right_le_left hat hi hlt) (hok.left_le hvalue))
  · intro hgt hbelow
    have hle := (le_findRightSlotIndex h hi).mpr
      (hbelow.of_le (hok.left_le hvalue))
    omega
  · intro hlt
    have hne : m.slots ≠ [] := by
      intro hnil
      rw [hnil] at hilt
      cases hilt
    have hbounds := findRightSlotIndex_bounds m lt le hne
    have hrlt : (m.findRightSlotIndex lt le).toNat < m.slots.length := by omega
    have hat := List.getElem?_eq_getElem hrlt
    have hle : ((m.findRightSlotIndex lt le).toNat : Int) ≤
        m.findRightSlotIndex lt le := by omega
    have hbelow := (le_findRightSlotIndex h hat).mp hle
    exact hbelow.of_le
      (le_trans (hok.le_right hvalue) (h.right_le_left hi hat (by omega)))
  · exact hilt

variable {ge le : Bool} {gt lt : num}

theorem Located.ends {v : num}
    (h : Located m lt le gt ge i v) (habove : Above ge gt v)
    (hbelow : Below le lt v) :
    m.findLeftSlotIndex gt ge ≤ i ∧ (i : Int) ≤ m.findRightSlotIndex lt le := by
  constructor
  · apply Nat.le_of_not_lt
    intro hlt
    exact h.before hlt habove
  · apply Int.not_lt.mp
    intro hgt
    exact h.beyond hgt hbelow

theorem mem_pickInside (h : SlotsOk m.slots) : o ∈ (m.pickInside lt le gt ge).1 <->
      exists v, (v, o) ∈ slotEntries m.slots ∧ Above ge gt v ∧
        Below le lt v := by
  have hwhole := mem_wholeSlots_iff (o := o) h
    (@mem_drop_take num m.slots (m.findLeftSlotIndex gt ge + 1)
      (m.findRightSlotIndex lt le).toNat)
  have hlower := mem_pickAt (o := o) h (m.findRightSlotIndex lt le)
    (fun s hs => @SlotMeta.Ok.mem_lowerThan o _ _ lt le s hs)
  have hgreater := mem_pickAt (o := o) h (m.findLeftSlotIndex gt ge)
    (fun s hs => @SlotMeta.Ok.mem_greaterThan o _ _ gt ge s hs)
  have hrange := mem_pickAt (o := o) h (m.findRightSlotIndex lt le)
    (fun s hs => @SlotMeta.Ok.mem_range o _ _ s hs lt gt le ge)
  rw [← somewhere_iff, pickInside]
  have hl := findLeftSlotIndex_le_length h gt ge
  split
  · split
    · rename_i hlr
      rw [pickBoth, pickBoth, Finset.mem_union,
        Finset.mem_union, hwhole, hlower, hgreater, somewhere_or, somewhere_or]
      apply somewhere_congr
      intro i s v hi hv
      have hloc := located h lt le gt ge hi hv
      constructor
      · intro hcase
        rcases hcase with hmid | ⟨hr, hbelow⟩ | ⟨hleft, habove⟩
        · exact ⟨hloc.after (by omega), hloc.within (by omega)⟩
        · exact ⟨hloc.after (by omega), hbelow⟩
        · exact ⟨habove, hloc.within (by omega)⟩
      · intro hcase
        have hends := hloc.ends hcase.1 hcase.2
        rcases Nat.lt_or_eq_of_le hends.1 with hlt | heq
        · by_cases hr : (i : Int) = m.findRightSlotIndex lt le
          · exact .inr (.inl ⟨hr, hcase.2⟩)
          · exact .inl (by omega)
        · exact .inr (.inr ⟨by omega, hcase.1⟩)
    · split
      · rename_i hne hlr heq
        rw [pickBoth, Finset.mem_union, hwhole, hrange, somewhere_or]
        apply somewhere_congr
        intro i s v hi hv
        have hloc := located h lt le gt ge hi hv
        constructor
        · intro hcase
          rcases hcase with hmid | hin
          · omega
          · exact hin.2
        · intro hcase
          have hends := hloc.ends hcase.1 hcase.2
          exact .inr ⟨by omega, hcase⟩
      · rw [hwhole]
        apply somewhere_congr
        intro i s v hi hv
        have hloc := located h lt le gt ge hi hv
        constructor
        · intro hmid
          omega
        · intro hcase
          have hends := hloc.ends hcase.1 hcase.2
          omega
  · rename_i hends
    rw [hwhole]
    apply somewhere_congr
    intro i s v hi hv
    have hloc := located h lt le gt ge hi hv
    have hlen := hloc.length
    constructor
    · intro hmid
      omega
    · intro hcase
      have hbetween := hloc.ends hcase.1 hcase.2
      omega

/-- The offsets whose value misses the lower or the upper bound. -/
theorem mem_pickOutside (h : SlotsOk m.slots) :
    o ∈ (m.pickOutside lt le gt ge).1 <->
      exists v, (v, o) ∈ slotEntries m.slots ∧
        ¬ (Above ge gt v ∧ Below le lt v) := by
  have hfirst : forall s, s ∈ m.slots.take (m.findLeftSlotIndex gt ge) <->
      exists i, (0 ≤ i ∧ i < m.findLeftSlotIndex gt ge) ∧
        m.slots[i]? = some s := by
    intro s
    rw [← mem_drop_take, drop_zero]
  have hrest : forall s,
      s ∈ m.slots.drop (m.findRightSlotIndex lt le + 1).toNat <->
      exists i, ((m.findRightSlotIndex lt le + 1).toNat ≤ i ∧
        i < m.slots.length) ∧ m.slots[i]? = some s := by
    intro s
    rw [← mem_drop_take, take_length]
  have hbefore := mem_wholeSlots_iff (o := o) h hfirst
  have hafter := mem_wholeSlots_iff (o := o) h hrest
  have hlower := mem_pickAt (o := o) h (m.findLeftSlotIndex gt ge)
    (fun s hs => @SlotMeta.Ok.mem_lowerThan o _ _ gt (!ge) s hs)
  have hgreater := mem_pickAt (o := o) h (m.findRightSlotIndex lt le)
    (fun s hs => @SlotMeta.Ok.mem_greaterThan o _ _ lt (!le) s hs)
  rw [← somewhere_iff, pickOutside]
  rw [pickBoth, pickBoth, pickBoth,
    Finset.mem_union, Finset.mem_union, Finset.mem_union, hbefore, hlower,
    hafter, hgreater, somewhere_or, somewhere_or, somewhere_or]
  apply somewhere_congr
  intro i s v hi hv
  have hloc := located h lt le gt ge hi hv
  rw [below_not, above_not]
  constructor
  · intro hcase hin
    have hends := hloc.ends hin.1 hin.2
    rcases hcase with (hlt | ⟨_, habove⟩) | hgt | ⟨_, hbelow⟩
    · omega
    · exact habove hin.1
    · omega
    · exact hbelow hin.2
  · intro hout
    by_cases habove : Above ge gt v
    · have hbelow : ¬ Below le lt v := fun hbelow => hout ⟨habove, hbelow⟩
      have hge : ¬ (i : Int) < m.findRightSlotIndex lt le :=
        fun hlt => hbelow (hloc.within hlt)
      have hlen := hloc.length
      by_cases heq : (i : Int) = m.findRightSlotIndex lt le
      · exact .inr (.inr ⟨heq, hbelow⟩)
      · exact .inr (.inl (by omega))
    · have hle : ¬ m.findLeftSlotIndex gt ge < i :=
        fun hlt => habove (hloc.after hlt)
      by_cases heq : i = m.findLeftSlotIndex gt ge
      · exact .inl (.inr ⟨by omega, habove⟩)
      · exact .inl (.inl (by omega))

theorem counted_pickInside (h : SlotsOk m.slots) (lt gt : num)
    (le ge : Bool) :
    SlotMeta.Picked.Counted (m.pickInside lt le gt ge) := by
  have hbetween : SlotMeta.Picked.Counted (wholeSlots
      ((m.slots.take (m.findRightSlotIndex lt le).toNat).drop
        (m.findLeftSlotIndex gt ge + 1))) := by
    apply counted_wholeSlots
    intro s hs
    exact h.each s (mem_of_mem_take (mem_of_mem_drop hs))
  rw [pickInside]
  split
  · split
    · exact counted_both hbetween (counted_both
        (counted_pickAt fun s => s.counted_lowerThan lt le)
        (counted_pickAt fun s => s.counted_greaterThan gt ge))
    · split
      · exact counted_both hbetween
          (counted_pickAt fun s => s.counted_range lt gt le ge)
      · exact hbetween
  · exact hbetween

theorem counted_pickOutside (h : SlotsOk m.slots) (lt gt : num)
    (le ge : Bool) :
    SlotMeta.Picked.Counted (m.pickOutside lt le gt ge) := by
  have hwhole : forall part, (forall s, s ∈ part -> s ∈ m.slots) ->
      SlotMeta.Picked.Counted (wholeSlots part) := by
    intro part hpart
    apply counted_wholeSlots
    intro s hs
    exact h.each s (hpart s hs)
  rw [pickOutside]
  exact counted_both
    (counted_both (hwhole _ fun s hs => mem_of_mem_take hs)
      (counted_pickAt fun s => s.counted_lowerThan gt (!ge)))
    (counted_both (hwhole _ fun s hs => mem_of_mem_drop hs)
      (counted_pickAt fun s => s.counted_greaterThan lt (!le)))

/-- What a range asks of a value.  The outer range of bounds given the wrong
way round is that of the bounds exchanged. -/
def InRange (rangeOut : Bool) (lt : num) (le : Bool) (gt : num) (ge : Bool)
    (v : num) : Prop :=
  if rangeOut then
    if lt < gt then ¬ (Above le lt v ∧ Below ge gt v)
    else ¬ (Above ge gt v ∧ Below le lt v)
  else Above ge gt v ∧ Below le lt v

instance (rangeOut : Bool) (lt : num) (le : Bool) (gt : num) (ge : Bool)
    (v : num) : Decidable (InRange rangeOut lt le gt ge v) := by
  unfold InRange
  infer_instance

theorem mem_getRangeBitmap (h : SlotsOk m.slots) {rangeOut : Bool} :
    o ∈ (m.getRangeBitmap rangeOut lt le gt ge).read <->
      exists v, (v, o) ∈ slotEntries m.slots ∧
        InRange rangeOut lt le gt ge v := by
  have hread : forall p : SlotMeta.Picked, SlotMeta.Picked.Counted p ->
      BitmapPtr.read (if p.2 = 0 then none else some p.1) = p.1 := by
    intro p hp
    by_cases hzero : p.2 = 0
    · rw [if_pos hzero, hp hzero, BitmapPtr.read_none]
    · rw [if_neg hzero, BitmapPtr.read_some]
  rw [getRangeBitmap]
  cases hslots : m.slots with
  | nil => simp [slotEntries]
  | cons first rest =>
    simp only
    rw [← hslots]
    cases rangeOut with
    | false =>
      simp only [Bool.false_eq_true, if_false, InRange]
      rw [hread _ (counted_pickInside h lt gt le ge), mem_pickInside h]
    | true =>
      simp only [if_true, InRange]
      split
      · rw [hread _ (counted_pickOutside h gt lt ge le), mem_pickOutside h]
      · rw [hread _ (counted_pickOutside h lt gt le ge), mem_pickOutside h]

end Scalar
end OpenViking
