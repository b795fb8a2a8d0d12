import Mathlib.Data.Finset.Dedup
import OpenViking.Scalar.RangedMapRange

/-!
# A ranged map is a map of numbers

Adding a number and deleting an offset keep the slots well formed and change
the value of that offset only, so a ranged map answers as the finite map of
its values does.
-/

namespace OpenViking
namespace Scalar

open RangedMap List SlotMeta

variable {num : Type} [LinearOrder num]

/-- The slots hold every value under its offset and nothing else. -/
structure RangedMap.Ok (m : RangedMap num) : Prop where
  slots : SlotsOk m.slots
  entries : forall v o, (v, o) ∈ slotEntries m.slots <-> m.valueAt o = some v
  nodup : ((slotEntries m.slots).map Prod.snd).Nodup

theorem RangedMap.ok_empty : (empty : RangedMap num).Ok := by
  refine ⟨⟨?_, List.Pairwise.nil⟩, ?_, nodup_nil⟩
  · nofun
  · intro v o
    simp [empty, slotEntries, valueAt]

variable {m : RangedMap num}

theorem RangedMap.Ok.mem_range (h : m.Ok)
    {rangeOut : Bool} {lt gt : num} {le ge : Bool} {o : Nat} :
    o ∈ (m.getRangeBitmap rangeOut lt le gt ge).read <->
      exists v, m.valueAt o = some v ∧ InRange rangeOut lt le gt ge v := by
  rw [mem_getRangeBitmap h.slots]
  constructor
  · intro hv
    rcases hv with ⟨v, hv, hin⟩
    exact ⟨v, (h.entries v o).mp hv, hin⟩
  · intro hv
    rcases hv with ⟨v, hv, hin⟩
    exact ⟨v, (h.entries v o).mpr hv, hin⟩

/-!
# Values of offsets
-/

variable {offset : Nat}

omit [LinearOrder num] in
theorem join_getElem?_set {values : List (Option num)} {o : Nat}
    {x : Option num} (hlt : offset < values.length) :
    (values.set offset x)[o]?.join =
      if o = offset then x else values[o]?.join := by
  rw [getElem?_set]
  by_cases h : o = offset
  · rw [if_pos h.symm, if_pos hlt, if_pos h]
    rfl
  · rw [if_neg (Ne.symm h), if_neg h]

omit [LinearOrder num] in
theorem join_getElem?_resized (values : List (Option num)) (offset o : Nat) :
    (resized values offset)[o]?.join = values[o]?.join := by
  rw [resized]
  by_cases h : o < values.length
  · rw [getElem?_append_left h]
  · rw [getElem?_append_right (by omega), getElem?_replicate,
      getElem?_eq_none (by omega)]
    split
    · rfl
    · rfl

omit [LinearOrder num] in
theorem lt_length_resized (values : List (Option num)) (offset : Nat) :
    offset < (resized values offset).length := by
  rw [resized, length_append, length_replicate]
  omega

/-!
# Putting a value into a slot
-/

variable {offsets : List Nat}

omit [LinearOrder num] in
private theorem entries_take {values : List num} (k : Nat) :
    (values.take k).zip (offsets.take k) = (values.zip offsets).take k := by
  simp only [zip_eq_zipWith, take_zipWith]

omit [LinearOrder num] in
private theorem entries_drop {values : List num} (k : Nat) :
    (values.drop k).zip (offsets.drop k) = (values.zip offsets).drop k := by
  simp only [zip_eq_zipWith, drop_zipWith]

variable {s : SlotMeta num}

theorem SlotMeta.Ok.entries_insert (h : s.Ok) (offset : Nat) (value : num) :
    (s.insert offset value).entries.Perm ((value, offset) :: s.entries) := by
  rw [entries, insert]
  show ((s.valueVec.take (upperBound s.valueVec value) ++
    value :: s.valueVec.drop (upperBound s.valueVec value)).zip
    (s.offsetVec.take (upperBound s.valueVec value) ++
      offset :: s.offsetVec.drop (upperBound s.valueVec value))).Perm _
  rw [zip_append (by simp [h.lengths]), zip_cons_cons, entries_take,
    entries_drop]
  apply perm_middle.trans
  rw [take_append_drop]
  exact List.Perm.refl _

variable {xs : List num}

theorem upperBound_splits (h : xs.Pairwise fun a b => a ≤ b) (v : num) :
    SplitsAt xs.length (fun i => forall a, xs[i]? = some a -> a ≤ v)
      (upperBound xs v) := by
  have hmono : xs.Pairwise fun a b =>
      decide (v < a) = true -> decide (v < b) = true := by
    apply h.imp
    intro a b hab ha
    rw [decide_eq_true_iff] at ha ⊢
    exact lt_of_lt_of_le ha hab
  have hsplit := findIdx_splits hmono
  simp only [decide_eq_false_iff_not, not_lt] at hsplit
  exact hsplit

theorem le_of_mem_take_upperBound (h : xs.Pairwise fun a b => a ≤ b) {v a : num}
    (ha : a ∈ xs.take (upperBound xs v)) : a ≤ v := by
  rcases getElem?_of_mem ha with ⟨i, hi⟩
  rw [getElem?_take] at hi
  split at hi
  · rename_i hlt
    exact (upperBound_splits h v).below i hlt a hi
  · cases hi

theorem lt_of_mem_drop_upperBound (h : xs.Pairwise fun a b => a ≤ b) {v a : num}
    (ha : a ∈ xs.drop (upperBound xs v)) : v < a := by
  rcases List.getElem?_of_mem ha with ⟨i, hi⟩
  rw [List.getElem?_drop] at hi
  apply lt_of_not_ge
  intro hle
  apply (upperBound_splits h v).above (upperBound xs v + i) (by omega)
    (List.getElem?_eq_some_iff.mp hi).1
  intro b hb
  rw [hi] at hb
  cases hb
  exact hle

theorem SlotMeta.Ok.insert (h : s.Ok) (offset : Nat)
    (value : num) : (s.insert offset value).Ok := by
  have htake := fun a => @le_of_mem_take_upperBound _ _ _ h.sorted value a
  have hdrop := fun a => @lt_of_mem_drop_upperBound _ _ _ h.sorted value a
  have hsplit := take_append_drop (upperBound s.valueVec value) s.valueVec
  constructor
  · simp [SlotMeta.insert, h.lengths]
  · show (s.valueVec.take _ ++ value :: s.valueVec.drop _).Pairwise _
    have hsorted := h.sorted
    rw [← hsplit, pairwise_append] at hsorted
    rw [pairwise_append]
    refine ⟨hsorted.1, ?_, ?_⟩
    · rw [pairwise_cons]
      refine ⟨?_, hsorted.2.1⟩
      intro a ha
      exact le_of_lt (hdrop a ha)
    · intro a ha b hb
      rcases mem_cons.mp hb with heq | hb
      · rw [heq]
        exact htake a ha
      · exact hsorted.2.2 a ha b hb
  · show (s.valueVec.take _ ++ value :: s.valueVec.drop _).head? =
      some (min value s.left)
    cases hfront : s.valueVec.take (upperBound s.valueVec value) with
    | nil =>
      have hmem : s.left ∈ s.valueVec.drop (upperBound s.valueVec value) := by
        rw [hfront, nil_append] at hsplit
        rw [hsplit]
        exact h.left_mem
      rw [nil_append, head?_cons, min_eq_left (le_of_lt (hdrop _ hmem))]
    | cons first front =>
      have hfirst : s.left = first := by
        have hleft := h.left
        rw [← hsplit, hfront] at hleft
        exact (Option.some.inj hleft).symm
      have hle : s.left ≤ value := by
        rw [hfirst]
        apply htake
        rw [hfront]
        exact mem_cons_self
      rw [cons_append, head?_cons, min_eq_right hle, hfirst]
  · show (s.valueVec.take _ ++ value :: s.valueVec.drop _).getLast? =
      some (max value s.right)
    have hright := h.right
    cases hback : s.valueVec.drop (upperBound s.valueVec value) with
    | nil =>
      have hle : s.right ≤ value := by
        apply htake
        rw [hback, append_nil] at hsplit
        rw [hsplit]
        exact h.right_mem
      rw [getLast?_concat, max_eq_left hle]
    | cons next back =>
      rw [← hsplit, hback] at hright
      have hlast : (next :: back).getLast? = some s.right := by
        rw [getLast?_append] at hright
        simpa using hright
      have hmem : s.right ∈ s.valueVec.drop (upperBound s.valueVec value) := by
        rw [hback]
        exact mem_of_mem_getLast? hlast
      rw [getLast?_append, getLast?_cons_cons, hlast,
        max_eq_right (le_of_lt (hdrop _ hmem))]
      rfl
  · show s.bitmap ∪ {offset} = _
    rw [h.bitmap]
    ext o
    simp only [SlotMeta.insert, Finset.mem_union, mem_toFinset,
      Finset.mem_singleton, mem_append, mem_cons]
    have hmem : o ∈ s.offsetVec <->
        o ∈ s.offsetVec.take (upperBound s.valueVec value) ∨
          o ∈ s.offsetVec.drop (upperBound s.valueVec value) := by
      rw [← mem_append, take_append_drop]
    rw [hmem]
    tauto

/-!
# Replacing a slot
-/

/-- Slots that take the place of one slot hold its entries within its ends. -/
structure Replaces (s : SlotMeta num) (part : List (SlotMeta num)) : Prop where
  slots : SlotsOk part
  lower : forall x, x ∈ part -> s.left ≤ x.left
  upper : forall x, x ∈ part -> x.right ≤ s.right

theorem SlotMeta.Ok.splitHalf {low high : SlotMeta num} (h : s.Ok)
    (hsplit : s.splitHalfToNewSlot = some (low, high)) :
    Replaces s [low, high] ∧ low.entries ++ high.entries = s.entries := by
  rw [splitHalfToNewSlot] at hsplit
  split at hsplit
  · rename_i newLeft newRight right hnewLeft hnewRight hright
    split at hsplit
    · cases hsplit
    cases hsplit
    have hsorted := h.sorted
    rw [← take_append_drop (s.valueVec.length / 2) s.valueVec,
      pairwise_append] at hsorted
    have hvalues := take_append_drop (s.valueVec.length / 2) s.valueVec
    have hleft : (s.valueVec.take (s.valueVec.length / 2)).head? =
        some s.left := by
      have hhead := h.left
      rw [← hvalues, head?_append] at hhead
      cases htake : s.valueVec.take (s.valueVec.length / 2) with
      | nil =>
        rw [htake] at hright
        cases hright
      | cons first rest =>
        rw [htake] at hhead
        exact hhead
    have hlast : newRight = s.right := by
      have hend := h.right
      rw [← hvalues, getLast?_append, hnewRight] at hend
      exact Option.some.inj hend
    have hrightMem := mem_of_mem_getLast? hright
    have hnewLeftMem := mem_of_mem_head? hnewLeft
    refine ⟨⟨⟨?_, ?_⟩, ?_, ?_⟩, ?_⟩
    · intro x hx
      rcases mem_cons.mp hx with heq | hx
      · rw [heq]
        exact ⟨by simp [h.lengths], hsorted.1, hleft, hright, rfl⟩
      · rw [mem_singleton.mp hx]
        exact ⟨by simp [h.lengths], hsorted.2.1, hnewLeft, hnewRight, rfl⟩
    · rw [pairwise_pair]
      exact hsorted.2.2 _ hrightMem _ hnewLeftMem
    · intro x hx
      rcases mem_cons.mp hx with heq | hx
      · rw [heq]
      · rw [mem_singleton.mp hx]
        exact h.left_le (mem_of_mem_drop hnewLeftMem)
    · intro x hx
      rcases mem_cons.mp hx with heq | hx
      · rw [heq]
        exact h.le_right (mem_of_mem_take hrightMem)
      · rw [mem_singleton.mp hx]
        exact le_of_eq hlast
    · rw [entries, entries, entries_take, entries_drop,
        take_append_drop, entries]
  · cases hsplit

theorem SlotMeta.Ok.replaces_self (h : s.Ok) : Replaces s [s] := by
  refine ⟨⟨?_, pairwise_singleton _ _⟩, ?_, ?_⟩
  · intro x hx
    rw [mem_singleton.mp hx]
    exact h
  · intro x hx
    rw [mem_singleton.mp hx]
  · intro x hx
    rw [mem_singleton.mp hx]

theorem SlotMeta.Ok.storedAt (h : s.Ok) (slotSize : Nat) :
    Replaces s (s.storedAt slotSize) ∧
      slotEntries (s.storedAt slotSize) = s.entries := by
  have hself : Replaces s [s] ∧ slotEntries [s] = s.entries :=
    ⟨h.replaces_self, by simp [slotEntries]⟩
  rw [SlotMeta.storedAt]
  split
  · cases hsplit : s.splitHalfToNewSlot with
    | none => exact hself
    | some halves =>
      rcases halves with ⟨low, high⟩
      rcases h.splitHalf hsplit with ⟨hreplaces, hentries⟩
      refine ⟨hreplaces, ?_⟩
      simpa [slotEntries] using hentries
  · exact hself

variable {slots : List (SlotMeta num)}

variable {i : Nat} {part : List (SlotMeta num)}

theorem SlotsOk.replace (h : SlotsOk slots) (hpart : SlotsOk part)
    (hlower : forall a, a ∈ slots.take i -> forall x, x ∈ part ->
      a.right ≤ x.left)
    (hupper : forall x, x ∈ part -> forall b, b ∈ slots.drop (i + 1) ->
      x.right ≤ b.left) :
    SlotsOk (slots.take i ++ part ++ slots.drop (i + 1)) := by
  have hordered := h.ordered
  constructor
  · intro x hx
    rcases mem_append.mp hx with hx | hx
    · rcases mem_append.mp hx with hx | hx
      · exact h.each x (mem_of_mem_take hx)
      · exact hpart.each x hx
    · exact h.each x (mem_of_mem_drop hx)
  · rw [pairwise_append, pairwise_append]
    refine ⟨⟨hordered.sublist (take_sublist _ _), hpart.ordered, hlower⟩,
      hordered.sublist (drop_sublist _ _), ?_⟩
    intro a ha b hb
    rcases mem_append.mp ha with ha | ha
    · rcases getElem?_of_mem ha with ⟨j, hj⟩
      rcases getElem?_of_mem hb with ⟨k, hk⟩
      rw [getElem?_take] at hj
      rw [getElem?_drop] at hk
      split at hj
      · exact h.right_le_left hj hk (by omega)
      · cases hj
    · exact hupper a ha b hb

omit [LinearOrder num] in
theorem slotEntries_append (xs ys : List (SlotMeta num)) :
    slotEntries (xs ++ ys) = slotEntries xs ++ slotEntries ys :=
  flatMap_append

omit [LinearOrder num] in
theorem slotEntries_at (hi : slots[i]? = some s) :
    slotEntries slots = slotEntries (slots.take i) ++
      (s.entries ++ slotEntries (slots.drop (i + 1))) := by
  rcases List.getElem?_eq_some_iff.mp hi with ⟨hlt, heq⟩
  have hsplit : slots = slots.take i ++ s :: slots.drop (i + 1) := by
    rw [← heq, List.cons_getElem_drop_succ, List.take_append_drop]
  conv => lhs; rw [hsplit]
  rw [slotEntries_append]
  rfl

omit [LinearOrder num] in
theorem slotEntries_replace_perm {e : num × Nat} (hi : slots[i]? = some s)
    (hpart : (slotEntries part).Perm (e :: s.entries)) :
    (slotEntries (slots.take i ++ part ++ slots.drop (i + 1))).Perm
      (e :: slotEntries slots) := by
  rw [slotEntries_at hi, slotEntries_append, slotEntries_append,
    append_assoc]
  refine (List.Perm.append_left _ (hpart.append_right _)).trans ?_
  rw [cons_append]
  exact perm_middle

/-!
# Adding
-/

variable {value : num}

/-- A map after a value was given to a new offset. -/
theorem RangedMap.Ok.push (h : m.Ok) (hslots : SlotsOk slots)
    (hperm : (slotEntries slots).Perm
      ((value, offset) :: slotEntries m.slots))
    (hnone : m.valueAt offset = none) :
    exists m' : RangedMap num,
      m' = ⟨(resized m.offsetToValue offset).set offset (some value),
        slots⟩ ∧ m'.Ok ∧
      forall o, m'.valueAt o =
        if o = offset then some value else m.valueAt o := by
  have hvalue : forall o,
      (((resized m.offsetToValue offset).set offset
        (some value))[o]?).join =
        if o = offset then some value else m.valueAt o := by
    intro o
    rw [join_getElem?_set (lt_length_resized _ _), join_getElem?_resized]
    rfl
  have hnotMem : offset ∉ (slotEntries m.slots).map Prod.snd := by
    intro hmem
    rcases mem_map.mp hmem with ⟨⟨v, o⟩, he, heq⟩
    have hv := (h.entries v o).mp he
    rw [show o = offset from heq, hnone] at hv
    cases hv
  refine ⟨_, rfl, ⟨hslots, ?_, ?_⟩, hvalue⟩
  · intro v o
    show (v, o) ∈ slotEntries slots <-> (_ : Option num) = some v
    rw [valueAt, hvalue, hperm.mem_iff, mem_cons, h.entries,
      Prod.mk.injEq]
    by_cases heq : o = offset
    · rw [if_pos heq, heq, hnone]
      simp [eq_comm]
    · rw [if_neg heq]
      simp [heq]
  · show ((slotEntries slots).map Prod.snd).Nodup
    rw [(hperm.map Prod.snd).nodup_iff, map_cons, nodup_cons]
    exact ⟨hnotMem, h.nodup⟩

theorem RangedMap.addAt_present
    {old : num} (slotSize : Nat) (h : m.valueAt offset = some old) :
    m.addAt slotSize offset value = (-1, m) := by
  rw [addAt, h]

theorem RangedMap.addAt_into
    {slot : SlotMeta num} (slotSize : Nat) (hnone : m.valueAt offset = none)
    (hat : m.slots[(m.findRightSlotIndex value true).toNat]? = some slot) :
    m.addAt slotSize offset value =
      (0, ⟨(resized m.offsetToValue offset).set offset (some value),
        m.slots.take (m.findRightSlotIndex value true).toNat ++
          (slot.insert offset value).storedAt slotSize ++
          m.slots.drop ((m.findRightSlotIndex value true).toNat + 1)⟩) := by
  rw [addAt, hnone]
  cases hslots : m.slots with
  | nil =>
    rw [hslots] at hat
    cases hat
  | cons first rest =>
    rw [hslots] at hat
    simp only [hat]

theorem RangedMap.Ok.addAt (h : m.Ok) (slotSize : Nat)
    (hnone : m.valueAt offset = none) (value : num) :
    exists m', m.addAt slotSize offset value = (0, m') ∧ m'.Ok ∧
      forall o, m'.valueAt o =
        if o = offset then some value else m.valueAt o := by
  by_cases hne : m.slots = []
  · have hslots : SlotsOk [single offset value] := by
      refine ⟨?_, pairwise_singleton _ _⟩
      intro s hs
      rw [mem_singleton.mp hs]
      exact ⟨rfl, pairwise_singleton _ _, rfl, rfl, rfl⟩
    have hperm : (slotEntries [single offset value]).Perm
        ((value, offset) :: slotEntries m.slots) := by
      rw [hne]
      exact List.Perm.refl _
    rcases h.push hslots hperm hnone with ⟨m', hm', hok, hvalue⟩
    refine ⟨m', ?_, hok, hvalue⟩
    rw [RangedMap.addAt, hnone, hne, hm']
  · have hbounds := findRightSlotIndex_bounds m value true hne
    have hpos : 0 < m.slots.length := length_pos_iff.mpr hne
    have hlt : (m.findRightSlotIndex value true).toNat < m.slots.length := by
      omega
    have hat := getElem?_eq_getElem hlt
    generalize m.slots[(m.findRightSlotIndex value true).toNat] = slot at hat
    rcases ((h.slots.at hat).insert offset value).storedAt slotSize with
      ⟨hreplaces, hentries⟩
    have hslots := h.slots.replace
      (i := (m.findRightSlotIndex value true).toNat) hreplaces.slots
      (by
        intro a ha x hx
        apply le_trans _ (hreplaces.lower x hx)
        rcases getElem?_of_mem ha with ⟨j, hj⟩
        rw [getElem?_take] at hj
        split at hj
        · rename_i hjlt
          have hleft : Below true value slot.left :=
            (le_findRightSlotIndex h.slots hat).mp (by omega)
          have hsorted := h.slots.right_le_left hj hat hjlt
          exact le_min (le_trans hsorted hleft) hsorted
        · cases hj)
      (by
        intro x hx b hb
        apply le_trans (hreplaces.upper x hx)
        rcases getElem?_of_mem hb with ⟨j, hj⟩
        rw [getElem?_drop] at hj
        have hnot : ¬ Below true value b.left := by
          intro hle
          have hindex := (le_findRightSlotIndex h.slots hj).mpr hle
          omega
        exact max_le (le_of_lt (not_le.mp hnot))
          (h.slots.right_le_left hat hj (by omega)))
    have hperm := slotEntries_replace_perm hat
      (by
        rw [hentries]
        exact (h.slots.at hat).entries_insert offset value)
    rcases h.push hslots hperm hnone with ⟨m', hm', hok, hvalue⟩
    refine ⟨m', ?_, hok, hvalue⟩
    rw [RangedMap.addAt_into slotSize hnone hat, hm']

theorem RangedMap.Ok.addOffsetAndScore (h : m.Ok) (hnone : m.valueAt offset = none)
    (value : num) :
    exists m', m.addOffsetAndScore offset value = (0, m') ∧ m'.Ok ∧
      forall o, m'.valueAt o =
        if o = offset then some value else m.valueAt o :=
  h.addAt rangedMapSlotSize hnone value

/-!
# Deleting
-/

omit [LinearOrder num] in
theorem entries_eraseIdx (h : s.offsetVec.length = s.valueVec.length) (j : Nat) :
    (s.valueVec.eraseIdx j).zip (s.offsetVec.eraseIdx j) =
      s.entries.eraseIdx j := by
  rw [entries, eraseIdx_eq_take_drop_succ,
    eraseIdx_eq_take_drop_succ, eraseIdx_eq_take_drop_succ,
    zip_append (by simp [h]), entries_take, entries_drop]

theorem mem_eraseIdx_iff (hnodup : offsets.Nodup)
    {j o : Nat} (hj : offsets[j]? = some offset) :
    o ∈ offsets.eraseIdx j <-> o ≠ offset ∧ o ∈ offsets := by
  rcases List.getElem?_eq_some_iff.mp hj with ⟨hlt, heq⟩
  have hperm := List.getElem_cons_eraseIdx_perm hlt
  rw [heq] at hperm
  have hnotMem := (List.nodup_cons.mp (hperm.nodup_iff.mpr hnodup)).1
  rw [← hperm.mem_iff, List.mem_cons]
  constructor
  · intro ho
    refine ⟨?_, Or.inr ho⟩
    intro hsame
    rw [hsame] at ho
    exact hnotMem ho
  · intro ho
    exact ho.2.resolve_left ho.1

/-- A slot without one of its entries; without its last entry it goes. -/
theorem SlotMeta.Ok.erase (h : s.Ok)
    (hnodup : s.offsetVec.Nodup) {j : Nat} {v : num}
    (hj : s.entries[j]? = some (v, offset)) :
    Replaces s (s.erase offset j) ∧
      slotEntries (s.erase offset j) = s.entries.eraseIdx j := by
  have hoffset := (SlotMeta.getElem?_entries.mp hj).2
  have hentries := entries_eraseIdx h.lengths j
  have hsorted := h.sorted.sublist (eraseIdx_sublist s.valueVec j)
  rw [SlotMeta.erase]
  cases hhead : (s.valueVec.eraseIdx j).head? with
  | none =>
    rw [head?_eq_none_iff] at hhead
    refine ⟨⟨⟨?_, List.Pairwise.nil⟩, ?_, ?_⟩, ?_⟩
    · nofun
    · nofun
    · nofun
    · rw [← hentries, hhead]
      rfl
  | some left =>
    cases hlast : (s.valueVec.eraseIdx j).getLast? with
    | none =>
      rw [getLast?_eq_none_iff] at hlast
      rw [hlast] at hhead
      cases hhead
    | some right =>
      have hleft := mem_of_mem_eraseIdx (mem_of_mem_head? hhead)
      have hright := mem_of_mem_eraseIdx (mem_of_mem_getLast? hlast)
      refine ⟨⟨⟨?_, pairwise_singleton _ _⟩, ?_, ?_⟩, ?_⟩
      · intro x hx
        rw [mem_singleton.mp hx]
        refine ⟨?_, hsorted, hhead, hlast, ?_⟩
        · show (s.offsetVec.eraseIdx j).length = (s.valueVec.eraseIdx j).length
          rw [length_eraseIdx, length_eraseIdx, h.lengths]
        · show s.bitmap.erase offset = (s.offsetVec.eraseIdx j).toFinset
          rw [h.bitmap]
          ext o
          rw [Finset.mem_erase, mem_toFinset, mem_toFinset]
          exact (mem_eraseIdx_iff hnodup hoffset).symm
      · intro x hx
        rw [mem_singleton.mp hx]
        exact h.left_le hleft
      · intro x hx
        rw [mem_singleton.mp hx]
        exact h.le_right hright
      · rw [← hentries]
        simp [slotEntries, SlotMeta.entries]

theorem lowerBound_splits (h : xs.Pairwise fun a b => a ≤ b) (v : num) :
    SplitsAt xs.length (fun i => forall a, xs[i]? = some a -> a < v)
      (lowerBound xs v) := by
  have hmono : xs.Pairwise fun a b =>
      decide (v ≤ a) = true -> decide (v ≤ b) = true := by
    apply h.imp
    intro a b hab ha
    rw [decide_eq_true_iff] at ha ⊢
    exact le_trans ha hab
  have hsplit := findIdx_splits hmono
  simp only [decide_eq_false_iff_not, not_le] at hsplit
  exact hsplit

theorem getElem?_findIdx_drop {alpha : Type} {xs : List alpha}
    {test : alpha -> Bool} {start j : Nat} {a : alpha} (hle : start ≤ j)
    (hj : xs[j]? = some a) (htest : test a = true) :
    exists b, xs[start + (xs.drop start).findIdx test]? = some b ∧
      test b = true := by
  have hmem : a ∈ xs.drop start := by
    apply mem_of_getElem? (i := j - start)
    rw [getElem?_drop, Nat.add_sub_cancel' hle]
    exact hj
  have hlt : (xs.drop start).findIdx test < (xs.drop start).length :=
    findIdx_lt_length_of_exists ⟨a, hmem, htest⟩
  refine ⟨(xs.drop start)[(xs.drop start).findIdx test], ?_, findIdx_getElem⟩
  rw [← getElem?_drop]
  exact getElem?_eq_getElem hlt

omit [LinearOrder num] in
theorem nodup_offsets
    (hnodup : ((slotEntries slots).map Prod.snd).Nodup) (hi : slots[i]? = some s)
    (hlengths : s.offsetVec.length = s.valueVec.length) :
    s.offsetVec.Nodup := by
  have hsub : List.Sublist s.entries (slotEntries slots) := by
    rw [slotEntries_at hi]
    exact (sublist_append_left _ _).trans (sublist_append_right _ _)
  have hmap := hnodup.sublist (hsub.map Prod.snd)
  rw [entries, map_snd_zip (by omega)] at hmap
  exact hmap

/-- An entry of a slot that sits at the place a deletion finds. -/
theorem RangedMap.Ok.found (h : m.Ok) (hvalue : m.valueAt offset = some value) :
    exists slot j,
      m.slots[slotHolding m.slots offset
        (m.findLeftSlotIndex value true)]? = some slot ∧
      lowerBound slot.valueVec value +
        (slot.offsetVec.drop (lowerBound slot.valueVec value)).findIdx
          (fun o => decide (o = offset)) = j ∧
      slot.entries[j]? = some (value, offset) := by
  rcases mem_slotEntries.mp ((h.entries value offset).mpr hvalue) with
    ⟨i, s, hi, hmem⟩
  have hok := h.slots.at hi
  have hleft : m.findLeftSlotIndex value true ≤ i :=
    (findLeftSlotIndex_le h.slots hi).mpr (hok.le_right (value_mem hmem))
  have hbit : decide (offset ∈ s.bitmap) = true :=
    decide_eq_true (hok.mem_bitmap.mpr ⟨value, hmem⟩)
  rcases @getElem?_findIdx_drop _ _
      (fun slot : SlotMeta num => decide (offset ∈ slot.bitmap))
      _ _ _ hleft hi hbit with ⟨slot, hslot, hholds⟩
  have hokSlot := h.slots.at hslot
  rcases hokSlot.mem_bitmap.mp (of_decide_eq_true hholds) with ⟨v, hv⟩
  have hsame : v = value := by
    have hat := (h.entries v offset).mp (mem_slotEntries.mpr ⟨_, _, hslot, hv⟩)
    rw [hvalue] at hat
    exact (Option.some.inj hat).symm
  rw [hsame] at hv
  rcases List.getElem?_of_mem hv with ⟨k, hk⟩
  have hparts := getElem?_entries.mp hk
  have hfirst : lowerBound slot.valueVec value ≤ k := by
    apply Nat.le_of_not_lt
    intro hlt
    exact lt_irrefl _
      ((lowerBound_splits hokSlot.sorted value).below k hlt value hparts.1)
  rcases @getElem?_findIdx_drop _ _ (fun o => decide (o = offset)) _ _ _
      hfirst hparts.2 (decide_eq_true rfl) with ⟨o, ho, heq⟩
  refine ⟨slot, _, hslot, rfl, ?_⟩
  rw [of_decide_eq_true heq] at ho
  generalize lowerBound slot.valueVec value + _ = j at ho ⊢
  have hjlt := (List.getElem?_eq_some_iff.mp ho).1
  rw [hokSlot.lengths] at hjlt
  have hentry := getElem?_entries.mpr ⟨List.getElem?_eq_getElem hjlt, ho⟩
  have hat := (h.entries _ offset).mp
    (mem_slotEntries.mpr ⟨_, _, hslot, List.mem_of_getElem? hentry⟩)
  rw [hvalue] at hat
  rw [hentry, Option.some.inj hat]

theorem RangedMap.deleteOffset_absent (h : m.valueAt offset = none) :
    m.deleteOffset offset = (-1, m) := by
  rw [deleteOffset]
  cases m.slots with
  | nil => rfl
  | cons first rest =>
    simp only [h]

theorem RangedMap.Ok.deleteOffset (h : m.Ok) (hvalue : m.valueAt offset = some value) :
    exists m', m.deleteOffset offset = (0, m') ∧ m'.Ok ∧
      forall o, m'.valueAt o = if o = offset then none else m.valueAt o := by
  rcases h.found hvalue with ⟨slot, j, hslot, hj, hentry⟩
  have hok := h.slots.at hslot
  have hnodup := nodup_offsets h.nodup hslot hok.lengths
  rcases hok.erase hnodup hentry with ⟨hreplaces, hentries⟩
  have hvalueAt : forall o, (m.offsetToValue.set offset none)[o]?.join =
      if o = offset then none else m.valueAt o := by
    have hlt : offset < m.offsetToValue.length := by
      rw [RangedMap.valueAt, Option.join_eq_some_iff] at hvalue
      exact (List.getElem?_eq_some_iff.mp hvalue).1
    intro o
    rw [join_getElem?_set hlt]
    rfl
  have hdelete : m.deleteOffset offset =
      (0, ⟨m.offsetToValue.set offset none,
        m.slots.take (RangedMap.slotHolding m.slots offset
            (m.findLeftSlotIndex value true)) ++
          slot.erase offset j ++
          m.slots.drop (RangedMap.slotHolding m.slots offset
            (m.findLeftSlotIndex value true) + 1)⟩) := by
    have hjlt : ¬ slot.offsetVec.length ≤ j := by
      have hat := (getElem?_entries.mp hentry).2
      exact Nat.not_le.mpr (List.getElem?_eq_some_iff.mp hat).1
    rw [RangedMap.deleteOffset]
    cases hslots : m.slots with
    | nil =>
      rw [hslots] at hslot
      cases hslot
    | cons first rest =>
      rw [hslots] at hslot
      simp only [hvalue, hslot, hj, if_neg hjlt]
  have hslots := h.slots.replace
    (i := RangedMap.slotHolding m.slots offset
      (m.findLeftSlotIndex value true)) hreplaces.slots
    (by
      intro a ha x hx
      apply le_trans _ (hreplaces.lower x hx)
      rcases List.getElem?_of_mem ha with ⟨k, hk⟩
      rw [List.getElem?_take] at hk
      split at hk
      · rename_i hlt
        exact h.slots.right_le_left hk hslot hlt
      · cases hk)
    (by
      intro x hx b hb
      apply le_trans (hreplaces.upper x hx)
      rcases List.getElem?_of_mem hb with ⟨k, hk⟩
      rw [List.getElem?_drop] at hk
      exact h.slots.right_le_left hslot hk (by omega))
  have hperm : ((value, offset) :: slotEntries
      (m.slots.take (RangedMap.slotHolding m.slots offset
          (m.findLeftSlotIndex value true)) ++
        slot.erase offset j ++
        m.slots.drop (RangedMap.slotHolding m.slots offset
          (m.findLeftSlotIndex value true) + 1))).Perm
      (slotEntries m.slots) := by
    rcases List.getElem?_eq_some_iff.mp hentry with ⟨hlt, heq⟩
    have hcons := List.getElem_cons_eraseIdx_perm hlt
    rw [heq] at hcons
    rw [slotEntries_at hslot, slotEntries_append, slotEntries_append, hentries,
      List.append_assoc]
    refine List.perm_middle.symm.trans (List.Perm.append_left _ ?_)
    rw [← List.cons_append]
    exact hcons.append_right _
  refine ⟨_, hdelete, ⟨hslots, ?_, ?_⟩, hvalueAt⟩
  · intro v o
    have hold := h.entries v o
    rw [← hperm.mem_iff, List.mem_cons, Prod.mk.injEq] at hold
    show (v, o) ∈ slotEntries _ <-> (_ : Option num) = some v
    rw [RangedMap.valueAt, hvalueAt]
    have hnodupAll := (hperm.map Prod.snd).nodup_iff.mpr h.nodup
    rw [List.map_cons, List.nodup_cons] at hnodupAll
    by_cases heq : o = offset
    · rw [if_pos heq, heq]
      constructor
      · intro hmem
        exact absurd (List.mem_map_of_mem hmem) hnodupAll.1
      · nofun
    · rw [if_neg heq, ← hold]
      simp [heq]
  · have hnodupAll := (hperm.map Prod.snd).nodup_iff.mpr h.nodup
    rw [List.map_cons, List.nodup_cons] at hnodupAll
    exact hnodupAll.2

/-!
# Two dimensions
-/

end Scalar
end OpenViking
