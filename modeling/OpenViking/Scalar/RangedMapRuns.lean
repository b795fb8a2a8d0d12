import Mathlib.Data.PNat.Notation
import OpenViking.Scalar.RangedMapCorrect

/-!
# Runs of a ranged map

Offsets are 32-bit numbers.  Over a sequence of calls a ranged map is the
partial map of its values, whatever the number of values at which slots are
split, as long as the last 32-bit offset is not added: the length of the vector
of values is computed in 32 bits as well.
-/

namespace OpenViking
namespace Scalar

variable {num : Type} [LinearOrder num]

namespace RangedMap

inductive Call (num : Type) where
  | add (offset : UInt32) (value : num)
  | delete (offset : UInt32)
deriving DecidableEq

/-- `add_offset_and_score`.  The new length `offset + 1` of the vector of values
is zero for the last offset; the value is then written outside the vector and
there is no result. -/
def addOffset32 (slotSize : PNat) (m : RangedMap num) (offset : UInt32)
    (value : num) : Option (Int × RangedMap num) :=
  if m.valueAt offset.toNat = none ∧
      m.offsetToValue.length ≤ offset.toNat ∧ offset + 1 = 0 then
    none
  else
    some (m.addAt slotSize offset.toNat value)

def Call.run (slotSize : PNat) (m : RangedMap num) :
    Call num -> Option (Int × RangedMap num)
  | add offset value => m.addOffset32 slotSize offset value
  | delete offset => some (m.deleteOffset offset.toNat)

/-- The codes that the calls return, and the map after them. -/
def runCalls (slotSize : PNat) :
    RangedMap num -> List (Call num) -> Option (List Int × RangedMap num)
  | m, [] => some ([], m)
  | m, call :: rest =>
    match call.run slotSize m with
    | none => none
    | some (code, m') =>
      (runCalls slotSize m' rest).map fun later =>
        (code :: later.1, later.2)

/-!
# Partial maps
-/

/-- The values that the offsets are meant to have. -/
abbrev Values (num : Type) : Type := Nat -> Option num

/-- An offset that is present is not added, and one that is absent is not
deleted. -/
def Call.answer (values : Values num) : Call num -> Int
  | add offset _ => if (values offset.toNat).isSome then -1 else 0
  | delete offset => if (values offset.toNat).isSome then 0 else -1

def Call.apply (values : Values num) : Call num -> Values num
  | add offset value => fun o =>
    if o = offset.toNat then some ((values o).getD value) else values o
  | delete offset => fun o => if o = offset.toNat then none else values o

omit [LinearOrder num] in
theorem Call.apply_add (values : Values num) (offset : UInt32) (value : num)
    (o : Nat) :
    (Call.add offset value).apply values o =
      if o = offset.toNat then some ((values o).getD value) else values o :=
  rfl

omit [LinearOrder num] in
theorem Call.apply_delete (values : Values num) (offset : UInt32) (o : Nat) :
    (Call.delete offset).apply values o =
      if o = offset.toNat then none else values o :=
  rfl

def answers (values : Values num) : List (Call num) -> List Int
  | [] => []
  | call :: rest => call.answer values :: answers (call.apply values) rest

/-- The call does not add the last offset. -/
def Call.Fits : Call num -> Prop
  | add offset _ => offset + 1 ≠ 0
  | delete _ => True

/-- The map holds exactly the values, in well-formed slots, and answers ranges
exactly. -/
structure Exact (m : RangedMap num) (values : Values num) : Prop where
  nonempty : forall s, s ∈ m.slots -> s.valueVec ≠ []
  sorted : forall s, s ∈ m.slots -> s.valueVec.Pairwise fun a b => a ≤ b
  borders : forall s, s ∈ m.slots ->
    s.valueVec.head? = some s.left ∧ s.valueVec.getLast? = some s.right
  bitmaps : forall s, s ∈ m.slots ->
    s.offsetVec.length = s.valueVec.length ∧ s.offsetVec.Nodup ∧
      s.bitmap = s.offsetVec.toFinset
  ordered : m.slots.Pairwise fun a b => a.right ≤ b.left
  graph : forall v o, (v, o) ∈ slotEntries m.slots <-> m.valueAt o = some v
  once : ((slotEntries m.slots).map Prod.snd).Nodup
  agrees : forall o, m.valueAt o = values o
  inside : forall (hi lo : num) (inclHi inclLo : Bool) (o : Nat),
    o ∈ (m.getRangeBitmap false hi inclHi lo inclLo).read <->
      exists v, values o = some v ∧ Above inclLo lo v ∧ Below inclHi hi v
  outside : forall (hi lo : num) (inclHi inclLo : Bool) (o : Nat), lo ≤ hi ->
    (o ∈ (m.getRangeBitmap true hi inclHi lo inclLo).read <->
      (values o).isSome ∧
        o ∉ (m.getRangeBitmap false hi inclHi lo inclLo).read)

/-!
# One call
-/

/-- The map stands for the values, and the last offset is absent. -/
structure StandsFor (m : RangedMap num) (values : Values num) : Prop where
  ok : m.Ok
  short : m.offsetToValue.length < 2 ^ 32
  agrees : forall o, m.valueAt o = values o

theorem standsFor_empty :
    StandsFor (RangedMap.empty : RangedMap num) fun _ => none := by
  refine ⟨ok_empty, Nat.two_pow_pos 32, ?_⟩
  intro o
  rfl

variable {values : Values num} {m : RangedMap num}

theorem StandsFor.exact
    (h : StandsFor m values) : Exact m values := by
  have hinside : forall (hi lo : num) (inclHi inclLo : Bool) (o : Nat),
      o ∈ (m.getRangeBitmap false hi inclHi lo inclLo).read <->
        exists v, values o = some v ∧ Above inclLo lo v ∧ Below inclHi hi v := by
    intro hi lo inclHi inclLo o
    rw [h.ok.mem_range, h.agrees]
    rfl
  constructor
  · intro s hs hnil
    have hleft := (h.ok.slots.each s hs).left
    rw [hnil] at hleft
    cases hleft
  · exact fun s hs => (h.ok.slots.each s hs).sorted
  · exact fun s hs =>
      ⟨(h.ok.slots.each s hs).left, (h.ok.slots.each s hs).right⟩
  · intro s hs
    have hok := h.ok.slots.each s hs
    rcases List.getElem?_of_mem hs with ⟨i, hi⟩
    exact ⟨hok.lengths, nodup_offsets h.ok.nodup hi hok.lengths, hok.bitmap⟩
  · exact h.ok.slots.ordered
  · exact h.ok.entries
  · exact h.ok.nodup
  · exact h.agrees
  · exact hinside
  · intro hi lo inclHi inclLo o hle
    have hnotSwapped : ¬ hi < lo := not_lt.mpr hle
    rw [hinside, h.ok.mem_range, h.agrees]
    simp only [InRange, if_true, if_neg hnotSwapped]
    cases values o with
    | none => simp
    | some v => simp

omit [LinearOrder num] in
theorem length_resized (values : List (Option num)) (offset : Nat) :
    (resized values offset).length = max values.length (offset + 1) := by
  rw [resized, List.length_append, List.length_replicate]
  omega

theorem length_addAt (slotSize : Nat) (m : RangedMap num) (offset : Nat)
    (value : num) :
    (m.addAt slotSize offset value).2.offsetToValue.length ≤
      max m.offsetToValue.length (offset + 1) := by
  have hlength : ((resized m.offsetToValue offset).set offset
      (some value)).length = max m.offsetToValue.length (offset + 1) := by
    rw [List.length_set, length_resized]
  rw [addAt]
  split
  · exact le_max_left _ _
  · split
    · exact le_of_eq hlength
    · dsimp only
      split
      · exact le_of_eq hlength
      · exact le_of_eq hlength

theorem length_deleteOffset (m : RangedMap num) (offset : Nat) :
    (m.deleteOffset offset).2.offsetToValue.length =
      m.offsetToValue.length := by
  rw [deleteOffset]
  split
  · rfl
  split
  · rfl
  · dsimp only
    split
    · exact List.length_set
    · split
      · exact List.length_set
      · exact List.length_set

omit [LinearOrder num] in
theorem lt_last_of_fits {offset : UInt32} (h : offset + 1 ≠ 0) :
    offset.toNat + 1 < 2 ^ 32 := by
  have hlt := offset.toNat_lt
  apply Nat.lt_of_le_of_ne hlt
  intro heq
  apply h
  apply UInt32.toNat_inj.mp
  rw [UInt32.toNat_add, show offset.toNat + (1 : UInt32).toNat = 2 ^ 32 from heq,
    Nat.mod_self]
  rfl

section

variable (h : StandsFor m values)

include h

theorem StandsFor.add (slotSize : PNat) {offset : UInt32}
    (hfits : offset + 1 ≠ 0) (value : num) :
    exists m', m.addOffset32 slotSize offset value =
        some ((Call.add offset value).answer values, m') ∧
      StandsFor m' ((Call.add offset value).apply values) := by
  have hrun : m.addOffset32 slotSize offset value =
      some (m.addAt slotSize offset.toNat value) := by
    rw [addOffset32, if_neg]
    exact fun hoverflow => hfits hoverflow.2.2
  rw [hrun]
  have hvalue := h.agrees offset.toNat
  cases hold : values offset.toNat with
  | some old =>
    rw [hold] at hvalue
    refine ⟨m, ?_, h.ok, h.short, ?_⟩
    · rw [addAt_present _ hvalue, Call.answer, hold]
      rfl
    · intro o
      rw [h.agrees, Call.apply_add]
      split
      · rename_i heq
        rw [heq, hold]
        rfl
      · rfl
  | none =>
    rw [hold] at hvalue
    rcases h.ok.addAt slotSize hvalue value with ⟨m', hadd, hok, hagrees⟩
    have hlength := length_addAt slotSize m offset.toNat value
    rw [hadd] at hlength
    refine ⟨m', ?_, hok, ?_, ?_⟩
    · rw [hadd, Call.answer, hold]
      rfl
    · exact lt_of_le_of_lt hlength (max_lt h.short (lt_last_of_fits hfits))
    · intro o
      rw [hagrees, Call.apply_add]
      split
      · rename_i heq
        rw [heq, hold]
        rfl
      · exact h.agrees o

theorem StandsFor.delete (offset : UInt32) :
    exists m', m.deleteOffset offset.toNat =
        ((.delete offset : Call num).answer values, m') ∧
      StandsFor m' ((.delete offset : Call num).apply values) := by
  have hvalue := h.agrees offset.toNat
  cases hold : values offset.toNat with
  | none =>
    rw [hold] at hvalue
    refine ⟨m, ?_, h.ok, h.short, ?_⟩
    · rw [deleteOffset_absent hvalue, Call.answer, hold]
      rfl
    · intro o
      rw [h.agrees, Call.apply_delete]
      split
      · rename_i heq
        rw [heq, hold]
      · rfl
  | some value =>
    rw [hold] at hvalue
    rcases h.ok.deleteOffset hvalue with ⟨m', hdelete, hok, hagrees⟩
    have hlength := length_deleteOffset m offset.toNat
    rw [hdelete] at hlength
    refine ⟨m', ?_, hok, ?_, ?_⟩
    · rw [hdelete, Call.answer, hold]
      rfl
    · exact lt_of_eq_of_lt hlength h.short
    · intro o
      rw [hagrees, Call.apply_delete, h.agrees]

theorem StandsFor.run (slotSize : PNat) {call : Call num} (hfits : call.Fits) :
    exists m', call.run slotSize m = some (call.answer values, m') ∧
      StandsFor m' (call.apply values) := by
  cases call with
  | add offset value =>
    exact h.add slotSize hfits value
  | delete offset =>
    rcases h.delete offset with ⟨m', hdelete, hm'⟩
    exact ⟨m', congrArg some hdelete, hm'⟩

theorem StandsFor.overflow (slotSize : PNat) {call : Call num}
    (hfits : ¬ call.Fits) : call.run slotSize m = none := by
  cases call with
  | add offset value =>
    have hzero : offset + 1 = 0 := not_not.mp hfits
    have hmod : (offset.toNat + 1) % 2 ^ 32 = 0 := by
      have hsum := congrArg UInt32.toNat hzero
      rw [UInt32.toNat_add] at hsum
      exact hsum
    have hlong : m.offsetToValue.length ≤ offset.toNat := by
      have hshort := h.short
      omega
    have habsent : m.valueAt offset.toNat = none := by
      rw [valueAt, List.getElem?_eq_none hlong]
      rfl
    exact if_pos ⟨habsent, hlong, hzero⟩
  | delete offset =>
    exact absurd trivial hfits

end

/-!
# Sequences of calls
-/

theorem StandsFor.runCalls_iff
    (h : StandsFor m values) (slotSize : PNat) (calls : List (Call num)) :
    (exists m', runCalls slotSize m calls = some (answers values calls, m') ∧
      Exact m' (calls.foldl Call.apply values)) <->
      forall call, call ∈ calls -> call.Fits := by
  induction calls generalizing m values with
  | nil =>
    constructor
    · nofun
    · intro _
      exact ⟨m, rfl, h.exact⟩
  | cons call rest ih =>
    by_cases hfits : call.Fits
    · rcases h.run slotSize hfits with ⟨next, hrun, hnext⟩
      have hstep : runCalls slotSize m (call :: rest) =
          (runCalls slotSize next rest).map fun later =>
            (call.answer values :: later.1, later.2) := by
        rw [runCalls, hrun]
      rw [List.forall_mem_cons, ← ih hnext, hstep]
      constructor
      · rintro ⟨m', hm', hexact⟩
        rcases Option.map_eq_some_iff.mp hm' with ⟨later, hlater, heq⟩
        refine ⟨hfits, m', ?_, hexact⟩
        rw [hlater]
        cases later
        cases heq
        rfl
      · rintro ⟨_, m', hm', hexact⟩
        refine ⟨m', ?_, hexact⟩
        rw [hm']
        rfl
    · constructor
      · rintro ⟨m', hm', _⟩
        rw [runCalls, h.overflow slotSize hfits] at hm'
        cases hm'
      · intro hall
        exact absurd (hall call List.mem_cons_self) hfits

/-- Over a sequence of calls a ranged map is the partial map of its values
exactly when no call adds the last offset. -/
theorem run_calls_exact_iff (slotSize : PNat) (calls : List (Call num)) :
    (exists m, runCalls slotSize RangedMap.empty calls =
        some (answers (fun _ => none) calls, m) ∧
      Exact m (calls.foldl Call.apply fun _ => none)) <->
      forall call, call ∈ calls -> call.Fits :=
  standsFor_empty.runCalls_iff slotSize calls

theorem last_offset_overflows :
    runCalls ⟨10000, by decide⟩ (RangedMap.empty : RangedMap Int)
      [.add 4294967295 7] = none := by
  decide

end RangedMap
end Scalar
end OpenViking
