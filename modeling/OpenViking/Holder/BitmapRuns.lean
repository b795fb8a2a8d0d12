import Mathlib.Logic.Encodable.Pi
import OpenViking.Common.Interleaving
import OpenViking.Holder.BitmapSets

/-!
# Runs over bitmap objects

A program calls the operations of several bitmap objects in any order, and an
operand may be the receiver.  While the calls are safe, each object denotes the
set that the set operations give and every answer is right.  Not safe are the
subtraction and the intersection of two Roaring bitmaps by reference while the
receiver remembers its count, since they keep the old count, and some calls
whose operand is the receiver.
-/

namespace OpenViking
namespace Holder

open Function

inductive SetOp where
  | union
  | exclude
  | intersect
  | xor
deriving DecidableEq

/-- An operand is passed by reference, or by a pointer that may be null. -/
inductive Operand (n : Nat) where
  | ref (j : Fin n)
  | ptr (j : Option (Fin n))
deriving DecidableEq

inductive Call (n : Nat) where
  | setId (i : Fin n) (id : Id)
  | unset (i : Fin n) (id : Id)
  | setRange (i : Fin n) (x y : Id)
  | setMany (i : Fin n) (added : List Id)
  | combine (op : SetOp) (i : Fin n) (operand : Operand n)
  | fastUnion (i : Fin n) (operands : List (Fin n))
  | copy (i : Fin n) (operand : Operand n)
  | clear (i : Fin n)
  | isset (i : Fin n) (id : Id)
  | empty (i : Fin n)
  | nbit (i : Fin n)
  | getCachedNbit (i : Fin n)
  | getSetList (i : Fin n)
  | getRangeList (i : Fin n) (result : List Id) (limit offset : Id)
  | serializeToString (i : Fin n)
  | parseFromString (i : Fin n) (s : List UInt8) (portable : Bool)
deriving DecidableEq

inductive Answer where
  | done
  | flag (b : Bool)
  | count (n : Nat)
  | list (ids : List Id)
  | page (n : Nat) (result : List Id)
  | bytes (s : List UInt8)
deriving DecidableEq

abbrev Store (n : Nat) : Type := Fin n -> Bitmap

variable {n : Nat}

def SetOp.run (op : SetOp) (b other : Bitmap) (same : Bool) : Option Bitmap :=
  match op with
  | union => some (b.union other)
  | exclude => b.exclude other same
  | intersect => some (b.intersect other)
  | xor => b.xor other same

/-- A call with a pointer drops the cached count afterwards. -/
def runCombine (s : Store n) (op : SetOp) (i : Fin n) :
    Operand n -> Option Bitmap
  | .ref j => op.run (s i) (s j) (decide (i = j))
  | .ptr none => some (s i)
  | .ptr (some j) =>
    (op.run (s i) (s j) (decide (i = j))).map Bitmap.dropCache

def runCopy (s : Store n) (i : Fin n) : Operand n -> Option Bitmap
  | .ref j => (s i).copy (s j) (decide (i = j))
  | .ptr none => some (s i)
  | .ptr (some j) =>
    ((s i).copy (s j) (decide (i = j))).map Bitmap.dropCache

variable (codec : Codec)

def Call.run (s : Store n) :
    Call n -> Option (Answer × Bitmap)
  | setId i id => some (.done, (s i).setId id)
  | unset i id => some (.done, (s i).unset id)
  | setRange i x y => some (.done, (s i).setRange x y)
  | setMany i added => some (.done, (s i).setMany added)
  | combine op i operand =>
    (runCombine s op i operand).map fun b => (.done, b)
  | fastUnion i operands =>
    ((s i).fastUnion (operands.map fun j =>
      if j = i then none else some (s j))).map fun b => (.done, b)
  | copy i operand => (runCopy s i operand).map fun b => (.done, b)
  | clear i => some (.done, (s i).clear)
  | isset i id => some (.flag ((s i).isset id), s i)
  | empty i => some (.flag (s i).empty, s i)
  | nbit i => some (.count (s i).nbit, s i)
  | getCachedNbit i =>
    some (.count (s i).getCachedNbit.1, (s i).getCachedNbit.2)
  | getSetList i =>
    (s i).getSetList.map fun found => (.list found, s i)
  | getRangeList i result limit offset =>
    ((s i).getRangeList result limit offset).map fun r =>
      (.page r.1.1 r.1.2, r.2)
  | serializeToString i =>
    some (.bytes ((s i).serializeToString codec).1,
      ((s i).serializeToString codec).2)
  | parseFromString i bytes portable =>
    some (.flag ((s i).parseFromString codec bytes portable).1,
      ((s i).parseFromString codec bytes portable).2)

def Call.receiver : Call n -> Fin n
  | setId i _ | unset i _ | setRange i _ _ | setMany i _ | combine _ i _
  | fastUnion i _ | copy i _ | clear i | isset i _ | empty i | nbit i
  | getCachedNbit i | getSetList i | getRangeList i _ _ _
  | serializeToString i | parseFromString i _ _ => i

def step (s : Store n) (call : Call n) :
    Option (Answer × Store n) :=
  (call.run codec s).map fun r => (r.1, update s call.receiver r.2)

/-!
# Sets
-/

/-- What the objects are meant to hold. -/
abbrev Sets (n : Nat) : Type := Fin n -> Finset Id

def SetOp.apply (op : SetOp) (A B : Finset Id) : Finset Id :=
  match op with
  | union => A ∪ B
  | exclude => A \ B
  | intersect => A ∩ B
  | xor => symmDiff A B

/-- The set of the receiver after a call.  The comment at `SetRange` includes
the upper end of the range, its use leaves it out: `closed` chooses. -/
def Call.result (closed : Bool) (A : Sets n) :
    Call n -> Finset Id
  | setId i id => insert id (A i)
  | unset i id => (A i).erase id
  | setRange i x y =>
    A i ∪ if closed then Finset.Icc x y else Finset.Ico x y
  | setMany i added => A i ∪ added.toFinset
  | combine op i (.ref j) => op.apply (A i) (A j)
  | combine op i (.ptr (some j)) => op.apply (A i) (A j)
  | combine _ i (.ptr none) => A i
  | fastUnion i operands => operands.foldl (fun acc j => acc ∪ A j) (A i)
  | copy _ (.ref j) => A j
  | copy _ (.ptr (some j)) => A j
  | copy i (.ptr none) => A i
  | clear _ => ∅
  | parseFromString _ s portable => (codec.read portable s).getD ∅
  | isset i _ | empty i | nbit i | getCachedNbit i | getSetList i
  | getRangeList i _ _ _ | serializeToString i => A i

def Call.apply (closed : Bool) (A : Sets n) (call : Call n) :
    Sets n :=
  update A call.receiver (call.result codec closed A)

def Call.Agrees (A : Sets n) (answer : Answer) :
    Call n -> Prop
  | isset i id => answer = .flag (decide (id ∈ A i))
  | empty i => answer = .flag (decide (A i = ∅))
  | nbit i => answer = .count (A i).card
  | getCachedNbit i => answer = .count (A i).card
  | getSetList i => answer = .list (ids (A i))
  | getRangeList i _ limit offset =>
    exists result, answer =
        .page (Bitmap.page (A i) limit offset).length result ∧
      result.take (Bitmap.page (A i) limit offset).length =
        Bitmap.page (A i) limit offset
  | serializeToString i =>
    exists s, answer = .bytes s ∧ codec.read true s = some (A i)
  | parseFromString _ s portable =>
    answer = .flag (codec.read portable s).isSome
  | _ => answer = .done

/-!
# Safe calls
-/

/-- By reference, two Roaring bitmaps may be combined while the receiver
remembers its count only if the count does not change. -/
def SetOp.KeepsCount (op : SetOp) (b other : Bitmap) : Prop :=
  b.isRoaring = true -> other.isRoaring = true -> b.hasNbitCache = true ->
    match op with
    | exclude => Disjoint b.roaring other.roaring
    | intersect => b.roaring ⊆ other.roaring
    | union | xor => True

instance (op : SetOp) (b other : Bitmap) : Decidable (op.KeepsCount b other) := by
  unfold SetOp.KeepsCount
  cases op <;> infer_instance

/-- An object is not subtracted from itself unless it is empty, and is not
combined with itself by `Xor`. -/
def SetOp.SelfSafe (op : SetOp) (b : Bitmap) : Prop :=
  match op with
  | exclude => b.isRoaring = false ∧ b.set = ∅
  | xor => False
  | union | intersect => True

instance (op : SetOp) (b : Bitmap) : Decidable (op.SelfSafe b) := by
  unfold SetOp.SelfSafe
  cases op <;> infer_instance

def Call.Safe (closed : Bool) (s : Store n) : Call n -> Prop
  | setRange i x y => closed = true -> y < x ∨ y ∈ (s i).denote
  | combine op i (.ref j) =>
    (i = j -> op.SelfSafe (s i)) ∧ op.KeepsCount (s i) (s j)
  | combine op i (.ptr (some j)) => i = j -> op.SelfSafe (s i)
  | fastUnion i operands => 2 ≤ operands.length -> i ∉ operands
  | copy i (.ref j) | copy i (.ptr (some j)) => i = j -> (s i).roaring = ∅
  | nbit i | getCachedNbit i | getSetList i | getRangeList i _ _ _ =>
    (s i).denote.card < 2 ^ 32
  | _ => True

instance (closed : Bool) (s : Store n) (call : Call n) :
    Decidable (call.Safe closed s) := by
  unfold Call.Safe
  split <;> infer_instance

/-!
# Steps
-/

variable {same : Bool}

variable {b other : Bitmap}

variable {b' : Bitmap}

theorem SetOp.run_holds {op : SetOp} {A B : Finset Id}
    (h : b.Denotes A) (hother : other.Denotes B)
    (hrun : op.run b other same = some b') : b'.Holds (op.apply A B) := by
  cases op with
  | union =>
    cases hrun
    exact (h.holds.union hother.holds).holds
  | exclude =>
    exact h.holds.exclude hother.holds hrun
  | intersect =>
    cases hrun
    exact h.holds.intersect hother.holds
  | xor =>
    exact (h.holds.xor hother.holds hrun).holds

theorem exclude_defined (hsame : same = true ->
      other = b ∧ b.isRoaring = false ∧ b.set = ∅) :
    exists b', b.exclude other same = some b' := by
  rw [Bitmap.exclude]
  cases same with
  | false =>
    split
    · exact ⟨_, rfl⟩
    · split
      · exact ⟨_, rfl⟩
      · exact ⟨_, rfl⟩
  | true =>
    rcases hsame rfl with ⟨rfl, hform, hset⟩
    rw [hform, hset]
    exact ⟨_, rfl⟩

theorem SetOp.run_defined (op : SetOp)
    (hsame : same = true -> other = b ∧ op.SelfSafe b) :
    exists b', op.run b other same = some b' := by
  cases op with
  | union =>
    exact ⟨_, rfl⟩
  | exclude =>
    exact exclude_defined hsame
  | intersect =>
    exact ⟨_, rfl⟩
  | xor =>
    cases same with
    | false => exact ⟨_, rfl⟩
    | true => exact (hsame rfl).2.elim

theorem exclude_cache (hrun : b.exclude other same = some b')
    (hcache : b'.hasNbitCache = true) :
    b.isRoaring = true ∧ other.isRoaring = true ∧ b.hasNbitCache = true ∧
      b'.nbitCache = b.nbitCache := by
  rw [Bitmap.exclude] at hrun
  split at hrun
  · rename_i hboth
    rw [Bool.and_eq_true] at hboth
    split at hrun
    · cases hrun
    · cases hrun
      exact ⟨hboth.1, hboth.2, hcache, rfl⟩
  · split at hrun
    · split at hrun
      · cases hrun
      · cases hrun
        cases hcache
    · cases hrun
      cases hcache

theorem intersect_cache (hcache : (b.intersect other).hasNbitCache = true) :
    b.isRoaring = true ∧ other.isRoaring = true ∧ b.hasNbitCache = true ∧
      (b.intersect other).nbitCache = b.nbitCache := by
  rw [Bitmap.intersect] at hcache ⊢
  split at hcache
  · rename_i hboth
    rw [if_pos hboth]
    rw [Bool.and_eq_true] at hboth
    exact ⟨hboth.1, hboth.2, hcache, rfl⟩
  · split at hcache
    · cases hcache
    · cases hcache

theorem roaring_eq {A : Finset Id} (h : b.Denotes A)
    (hform : b.isRoaring = true) : b.roaring = A := by
  rcases h.holds.form_cases with ⟨_, heq⟩ | ⟨hset, _⟩
  · exact heq
  · rw [hform] at hset
    cases hset

theorem SetOp.run_denotes {op : SetOp} {A B : Finset Id} (h : b.Denotes A)
    (hother : other.Denotes B) (hkeeps : op.KeepsCount b other)
    (hrun : op.run b other same = some b') : b'.Denotes (op.apply A B) := by
  refine ⟨run_holds h hother hrun, ?_⟩
  intro hcache
  cases op with
  | union =>
    cases hrun
    exact (h.holds.union hother.holds).cached hcache
  | exclude =>
    rcases exclude_cache hrun hcache with ⟨hb, ho, hold, hcount⟩
    have hdisjoint := hkeeps hb ho hold
    rw [roaring_eq h hb, roaring_eq hother ho] at hdisjoint
    rw [hcount, h.cached hold, SetOp.apply,
      Finset.sdiff_eq_self_of_disjoint hdisjoint]
  | intersect =>
    cases hrun
    rcases intersect_cache hcache with ⟨hb, ho, hold, hcount⟩
    have hsubset := hkeeps hb ho hold
    rw [roaring_eq h hb, roaring_eq hother ho] at hsubset
    rw [hcount, h.cached hold, SetOp.apply, Finset.inter_eq_left.mpr hsubset]
  | xor =>
    exact (h.holds.xor hother.holds hrun).cached hcache

def Store.Denotes (s : Store n) (A : Sets n) : Prop :=
  forall i, (s i).Denotes (A i)

variable {A : Sets n} {closed : Bool} {s : Store n}

theorem runCombine_denotes (h : s.Denotes A) {op : SetOp} {i : Fin n}
    {operand : Operand n}
    (hsafe : (Call.combine op i operand).Safe closed s) :
    exists b, runCombine s op i operand = some b ∧
      b.Denotes ((Call.combine op i operand).result codec closed A) := by
  have hself : forall j, (i = j -> op.SelfSafe (s i)) ->
      (decide (i = j) = true -> s j = s i ∧ op.SelfSafe (s i)) := by
    intro j hij hdec
    have heq := of_decide_eq_true hdec
    exact ⟨by rw [heq], hij heq⟩
  rcases operand with j | j
  · rcases op.run_defined (hself j hsafe.1) with ⟨b, hrun⟩
    exact ⟨b, hrun, SetOp.run_denotes (h i) (h j) hsafe.2 hrun⟩
  · cases j with
    | none => exact ⟨s i, rfl, h i⟩
    | some j =>
      rcases op.run_defined (hself j hsafe) with ⟨b, hrun⟩
      refine ⟨b.dropCache, ?_, (SetOp.run_holds (h i) (h j) hrun).dropCache⟩
      rw [runCombine, hrun]
      rfl

theorem mem_foldl_sets (A : Sets n) (operands : List (Fin n))
    (acc : Finset Id) (id : Id) :
    id ∈ operands.foldl (fun acc j => acc ∪ A j) acc <->
      id ∈ acc ∨ exists j, j ∈ operands ∧ id ∈ A j := by
  induction operands generalizing acc with
  | nil => simp
  | cons j rest ih =>
    rw [List.foldl_cons, ih, Finset.mem_union]
    simp only [List.mem_cons, exists_eq_or_imp, or_assoc]

theorem fastUnion_denotes (h : s.Denotes A) {i : Fin n}
    {operands : List (Fin n)}
    (hself : 2 ≤ operands.length -> i ∉ operands) :
    exists b, (s i).fastUnion (operands.map fun j =>
        if j = i then none else some (s j)) = some b ∧
      b.Denotes (operands.foldl (fun acc j => acc ∪ A j) (A i)) := by
  have hsome : forall x, some x ∈ (operands.map fun j =>
      if j = i then none else some (s j)) ->
        exists j, j ∈ operands ∧ x = s j := by
    intro x hx
    rcases List.mem_map.mp hx with ⟨j, hj, heq⟩
    split at heq
    · cases heq
    · cases heq
      exact ⟨j, hj, rfl⟩
  have hothers : forall x, some x ∈ (operands.map fun j =>
      if j = i then none else some (s j)) -> x.Holds x.denote := by
    intro x hx
    rcases hsome x hx with ⟨j, _, rfl⟩
    rw [(h j).holds.denote_eq]
    exact (h j).holds
  have hnone : 2 ≤ (operands.map fun j =>
      if j = i then none else some (s j)).length ->
        none ∉ operands.map fun j => if j = i then none else some (s j) := by
    intro hlength hmem
    rw [List.length_map] at hlength
    rcases List.mem_map.mp hmem with ⟨j, hj, heq⟩
    split at heq
    · rename_i hji
      exact hself hlength (hji ▸ hj)
    · cases heq
  rcases (h i).fastUnion hothers hnone with ⟨b, B, hrun, hB, hmem⟩
  have hsame : B = operands.foldl (fun acc j => acc ∪ A j) (A i) := by
    ext id
    rw [hmem, mem_foldl_sets]
    constructor
    · rintro (hid | ⟨x, hx, hid⟩)
      · exact .inl hid
      · rcases hsome x hx with ⟨j, hj, rfl⟩
        rw [(h j).holds.denote_eq] at hid
        exact .inr ⟨j, hj, hid⟩
    · rintro (hid | ⟨j, hj, hid⟩)
      · exact .inl hid
      · by_cases hij : j = i
        · rw [hij] at hid
          exact .inl hid
        · refine .inr ⟨s j, ?_, ?_⟩
          · exact List.mem_map.mpr ⟨j, hj, if_neg hij⟩
          · rw [(h j).holds.denote_eq]
            exact hid
  exact ⟨b, hrun, hsame ▸ hB⟩

theorem copy_denotes {other : Bitmap} {B : Finset Id} (h : other.Denotes B)
    (hself : same = true -> b.roaring = ∅) :
    exists b', b.copy other same = some b' ∧ b'.Denotes B := by
  have hsafe : ¬ (same && decide (b.roaring ≠ ∅)) = true := by
    rw [Bool.and_eq_true, decide_eq_true_iff]
    exact fun h => h.2 (hself h.1)
  refine ⟨_, if_neg hsafe, Bitmap.Holds.uncached ?_ rfl⟩
  rcases h.holds with ⟨form, hids, hset⟩ | ⟨form, hids, hr, hfew⟩
  · exact Bitmap.Holds.roaring form hids hset
  · exact Bitmap.Holds.set form hids hr hfew

theorem runCopy_denotes (h : s.Denotes A) {i : Fin n} {operand : Operand n}
    (hsafe : (Call.copy i operand).Safe closed s) :
    exists b, runCopy s i operand = some b ∧
      b.Denotes ((Call.copy i operand).result codec closed A) := by
  rcases operand with j | j
  · exact copy_denotes (h j) fun hij => hsafe (of_decide_eq_true hij)
  · cases j with
    | none => exact ⟨s i, rfl, h i⟩
    | some j =>
      have hself : decide (i = j) = true -> (s i).roaring = ∅ :=
        fun hij => hsafe (of_decide_eq_true hij)
      rcases copy_denotes (h j) hself with ⟨b, hrun, hb⟩
      refine ⟨b.dropCache, ?_, hb.holds.dropCache⟩
      rw [runCopy, hrun]
      rfl

theorem Call.run_exact (h : s.Denotes A) {call : Call n}
    (hsafe : call.Safe closed s) :
    exists answer b, call.run codec s = some (answer, b) ∧
      call.Agrees codec A answer ∧
        b.Denotes (call.result codec closed A) := by
  have hcard : forall i, (s i).denote.card < 2 ^ 32 -> (A i).card < 2 ^ 32 := by
    intro i hi
    rwa [(h i).holds.denote_eq] at hi
  cases call with
  | setId i id =>
    exact ⟨_, _, rfl, rfl, (h i).holds.setId id⟩
  | unset i id =>
    exact ⟨_, _, rfl, rfl, (h i).holds.unset id⟩
  | setRange i x y =>
    refine ⟨_, _, rfl, rfl, ?_⟩
    have hrange := (h i).holds.setRange x y
    cases closed with
    | false => exact hrange
    | true =>
      have hsame : A i ∪ Finset.Icc x y = A i ∪ Finset.Ico x y := by
        rcases hsafe rfl with hlt | hmem
        · rw [Finset.Icc_eq_empty (not_le.mpr hlt),
            Finset.Ico_eq_empty (not_lt.mpr (le_of_lt hlt))]
        · rw [(h i).holds.denote_eq] at hmem
          rcases le_or_gt x y with hle | hlt
          · rw [← Finset.Ico_insert_right hle, Finset.union_insert,
              Finset.insert_eq_of_mem (Finset.mem_union_left _ hmem)]
          · rw [Finset.Icc_eq_empty (not_le.mpr hlt),
              Finset.Ico_eq_empty (not_lt.mpr (le_of_lt hlt))]
      rw [Call.result, if_pos rfl, hsame]
      exact hrange
  | setMany i added =>
    exact ⟨_, _, rfl, rfl, (h i).holds.setMany added⟩
  | combine op i operand =>
    rcases runCombine_denotes codec h hsafe with ⟨b, hrun, hb⟩
    refine ⟨Answer.done, b, ?_, rfl, hb⟩
    rw [Call.run, hrun]
    rfl
  | fastUnion i operands =>
    rcases fastUnion_denotes h hsafe with ⟨b, hrun, hb⟩
    refine ⟨Answer.done, b, ?_, rfl, hb⟩
    rw [Call.run, hrun]
    rfl
  | copy i operand =>
    rcases runCopy_denotes codec h hsafe with ⟨b, hrun, hb⟩
    refine ⟨Answer.done, b, ?_, rfl, hb⟩
    rw [Call.run, hrun]
    rfl
  | clear i =>
    have hempty := Bitmap.Holds.set (b := (s i).clear) rfl rfl rfl (Nat.zero_le _)
    exact ⟨_, _, rfl, rfl, hempty.uncached rfl⟩
  | isset i id =>
    exact ⟨_, _, rfl, congrArg Answer.flag ((h i).holds.isset id), h i⟩
  | empty i =>
    exact ⟨_, _, rfl, congrArg Answer.flag (h i).holds.empty, h i⟩
  | nbit i =>
    refine ⟨_, _, rfl, ?_, h i⟩
    change Answer.count (s i).nbit = Answer.count (A i).card
    rw [(h i).holds.nbit, Nat.mod_eq_of_lt (hcard i hsafe)]
  | getCachedNbit i =>
    refine ⟨_, _, rfl, ?_, (h i).getCachedNbit.2⟩
    change Answer.count (s i).getCachedNbit.1 = Answer.count (A i).card
    rw [(h i).getCachedNbit.1, Nat.mod_eq_of_lt (hcard i hsafe)]
  | getSetList i =>
    refine ⟨Answer.list (ids (A i)), s i, ?_, rfl, h i⟩
    rw [Call.run, (h i).holds.getSetList (hcard i hsafe)]
    rfl
  | getRangeList i result limit offset =>
    rcases (h i).getRangeList (hcard i hsafe) result limit offset with
      ⟨result', hrun, htake⟩
    refine ⟨_, _, ?_, ⟨result', rfl, htake⟩, (h i).getCachedNbit.2⟩
    rw [Call.run, hrun]
    rfl
  | serializeToString i =>
    refine ⟨_, _, rfl, ⟨_, rfl, ?_⟩, (h i).toRoaring⟩
    rw [Bitmap.serializeToString, (h i).holds.toRoaring.2.1]
    exact codec.read_write (A i)
  | parseFromString i bytes portable =>
    have hparse := Bitmap.Denotes.parseFromString codec (s i) bytes portable
    exact ⟨_, _, rfl, congrArg Answer.flag hparse.1, hparse.2⟩

/-!
# Runs
-/

/-- Every object denotes its set, now and after each of the calls; each call has
an answer, which is that of the sets, and changes no object but its receiver. -/
def RunExact (codec : Codec) (closed : Bool) :
    Store n -> Sets n -> List (Call n) -> Prop
  | s, A, [] => s.Denotes A
  | s, A, call :: rest =>
    s.Denotes A ∧ exists answer s', step codec s call = some (answer, s') ∧
      call.Agrees codec A answer ∧
      (forall j, j ≠ call.receiver -> s' j = s j) ∧
        RunExact codec closed s' (call.apply codec closed A) rest

/-- The objects after a call. -/
def next (s : Store n) (call : Call n) : Option (Store n) :=
  (step codec s call).map Prod.snd

theorem Store.Denotes.runExact {codec : Codec} (h : s.Denotes A) {calls : List (Call n)}
    (hsafe : Interleaving.Meets (next codec)
      (fun s call => call.Safe closed s) s calls) :
    RunExact codec closed s A calls := by
  induction calls generalizing s A with
  | nil =>
    exact h
  | cons call rest ih =>
    rcases Call.run_exact codec h hsafe.1 with
      ⟨answer, b, hrun, hagrees, hb⟩
    have hstep : step codec s call =
        some (answer, update s call.receiver b) := by
      rw [step, hrun]
      rfl
    have hnext : Store.Denotes (update s call.receiver b)
        (call.apply codec closed A) := by
      intro i
      by_cases hi : i = call.receiver
      · rw [hi, Call.apply, update_self, update_self]
        exact hb
      · rw [Call.apply, update_of_ne hi, update_of_ne hi]
        exact h i
    refine ⟨h, answer, _, hstep, hagrees, ?_, ?_⟩
    · intro j hj
      exact update_of_ne hj _ _
    · apply ih hnext
      apply hsafe.2
      rw [next, hstep]
      rfl

/-- While every call is safe, the bitmap objects refine the sets. -/
theorem safe_run_exact (codec : Codec) (closed : Bool)
    {calls : List (Call n)}
    (hsafe : Interleaving.Meets (next codec)
      (fun s call => call.Safe closed s) (fun _ => Bitmap.new) calls) :
    RunExact codec closed (fun _ => Bitmap.new) (fun _ => ∅) calls :=
  Store.Denotes.runExact (fun _ => Bitmap.denotes_new) hsafe

namespace Sample

/-- A stored form that numbers the sets. -/
def numbered : Codec where
  write s := List.replicate (Encodable.encode s) 0
  read _ bytes := Encodable.decode bytes.length
  read_write s := by rw [List.length_replicate, Encodable.encodek]

/-- Two bitmaps are united, intersected and counted. -/
def combined : List (Call 2) :=
  [.setMany 0 [1, 2, 3], .setId 1 2, .getCachedNbit 0,
    .combine SetOp.intersect 0 (.ref 1), .getCachedNbit 0,
    .getRangeList 0 [] 5 0]

/-- Two Roaring bitmaps are subtracted after the count was asked for. -/
def subtracted : List (Call 2) :=
  [.setMany 0 [1, 2, 3], .setMany 1 [2], .getCachedNbit 0,
    .combine SetOp.exclude 0 (.ref 1)]

end Sample

open Sample

theorem combined_run_exact :
    RunExact numbered false (fun _ => Bitmap.new) (fun _ => ∅) combined := by
  have hsafe : Interleaving.Meets (next numbered)
      (fun s call => call.Safe false s) (fun _ => Bitmap.new) combined := by
    decide +kernel
  exact safe_run_exact numbered false hsafe

/-- The old count is answered. -/
theorem subtracted_count_stale :
    ((Interleaving.run (next numbered) (fun _ => Bitmap.new) subtracted).bind
        fun s => (Call.getCachedNbit 0).run numbered s).map Prod.fst =
      some (Answer.count 3) ∧
    (subtracted.foldl
      (fun (A : Sets 2) (call : Call 2) => call.apply numbered false A)
        (fun _ => ∅) 0).card = 2 := by
  decide +kernel

end Holder
end OpenViking
