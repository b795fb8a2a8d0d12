import OpenViking.Holder.Bitmap

/-!
# What a bitmap object denotes

In either form a bitmap denotes one set.  Each operation takes the denoted set
where the set operation takes it, and the cached count is the count.
-/

namespace OpenViking
namespace Holder

open List

theorem length_ids (s : Finset Id) : (ids s).length = s.card :=
  Finset.length_sort _

namespace Bitmap

/-- The set in the form in use; the other form is empty. -/
inductive Holds : Bitmap -> Finset Id -> Prop where
  | roaring {b : Bitmap} {A : Finset Id} (form : b.isRoaring = true)
      (ids : b.roaring = A) (set : b.set = ∅) : Holds b A
  | set {b : Bitmap} {A : Finset Id} (form : b.isRoaring = false)
      (ids : b.set = A) (roaring : b.roaring = ∅)
      (few : A.card ≤ setThreshold) : Holds b A

/-- The bitmap denotes the set, and a cached count is its count. -/
structure Denotes (b : Bitmap) (A : Finset Id) : Prop where
  holds : Holds b A
  cached : b.hasNbitCache = true -> b.nbitCache = A.card % 2 ^ 32

theorem denotes_new : Denotes new ∅ :=
  ⟨.set rfl rfl rfl (Nat.zero_le _), fun h => by cases h⟩

variable {A : Finset Id} {b : Bitmap}

section

variable (h : Holds b A)

include h

theorem Holds.uncached (hcache : b.hasNbitCache = false) : Denotes b A := by
  refine ⟨h, ?_⟩
  intro htrue
  rw [hcache] at htrue
  cases htrue

theorem Holds.dropCache : Denotes b.dropCache A := by
  cases h with
  | roaring form ids set =>
    exact Holds.uncached (.roaring form ids set) rfl
  | set form ids roaring few =>
    exact Holds.uncached (.set form ids roaring few) rfl

theorem Holds.isset (id : Id) : b.isset id = decide (id ∈ A) := by
  cases h with
  | roaring form ids set =>
    rw [Bitmap.isset, if_pos form, ids]
  | set form ids roaring few =>
    rw [Bitmap.isset, form, ids]
    rfl

theorem Holds.empty : b.empty = decide (A = ∅) := by
  cases h with
  | roaring form ids set =>
    rw [Bitmap.empty, ids, set]
    simp
  | set form ids roaring few =>
    rw [Bitmap.empty, ids, roaring]
    simp

theorem Holds.nbit : b.nbit = A.card % 2 ^ 32 := by
  cases h with
  | roaring form ids set =>
    rw [Bitmap.nbit, if_pos form, ids]
  | set form ids roaring few =>
    rw [Bitmap.nbit, form, ids]
    rfl

theorem Holds.form_cases : (b.isRoaring = true ∧ b.roaring = A) ∨
      (b.isRoaring = false ∧ b.set = A) := by
  cases h with
  | roaring form ids set =>
    exact .inl ⟨form, ids⟩
  | set form ids roaring few =>
    exact .inr ⟨form, ids⟩

theorem Holds.toRoaring : b.toRoaring.isRoaring = true ∧ b.toRoaring.roaring = A ∧
      b.toRoaring.set = ∅ := by
  cases h with
  | roaring form ids set =>
    rw [Bitmap.toRoaring, if_pos form]
    exact ⟨form, ids, set⟩
  | set form ids roaring few =>
    rw [Bitmap.toRoaring, form, ids, roaring]
    exact ⟨rfl, Finset.empty_union A, rfl⟩

theorem Holds.toRoaring_holds : Holds b.toRoaring A :=
  .roaring h.toRoaring.1 h.toRoaring.2.1 h.toRoaring.2.2

end

theorem toRoaring_cache (b : Bitmap) :
    b.toRoaring.hasNbitCache = b.hasNbitCache ∧
      b.toRoaring.nbitCache = b.nbitCache := by
  rw [toRoaring]
  split
  · exact ⟨rfl, rfl⟩
  · exact ⟨rfl, rfl⟩

theorem Denotes.toRoaring (h : Denotes b A) :
    Denotes b.toRoaring A := by
  refine ⟨h.holds.toRoaring_holds, ?_⟩
  rw [(toRoaring_cache b).1, (toRoaring_cache b).2]
  exact h.cached

theorem Holds.rewritten (h : Holds b A)
    (B : Finset Id) :
    Denotes { b.toRoaring with roaring := B, hasNbitCache := false } B :=
  Holds.uncached (.roaring h.toRoaring.1 rfl h.toRoaring.2.2) rfl

/-!
# Ids
-/

section

variable (h : Holds b A)

include h

theorem Holds.setId (id : Id) : Denotes (b.setId id) (insert id A) := by
  cases h with
  | roaring form ids set =>
    rw [Bitmap.setId, if_pos form, ids]
    exact Holds.uncached (Holds.roaring form rfl set) rfl
  | set form ids roaring few =>
    rw [Bitmap.setId, if_neg ((Bool.not_eq_true _).mpr form), ids]
    dsimp only
    split
    · have hswitched : ({ b with set := insert id A }).toRoaring =
          { b with roaring := insert id A, set := ∅, isRoaring := true } := by
        rw [Bitmap.toRoaring]
        simp only [form, roaring, Finset.empty_union, Bool.false_eq_true,
          if_false]
      rw [hswitched]
      exact Holds.uncached (Holds.roaring rfl rfl rfl) rfl
    · rename_i hfew
      exact Holds.uncached (Holds.set form rfl roaring (Nat.le_of_not_lt hfew)) rfl

theorem Holds.unset (id : Id) : Denotes (b.unset id) (A.erase id) := by
  cases h with
  | roaring form ids set =>
    rw [Bitmap.unset, if_pos form, ids]
    exact Holds.uncached (Holds.roaring form rfl set) rfl
  | set form ids roaring few =>
    rw [Bitmap.unset, if_neg ((Bool.not_eq_true _).mpr form), ids]
    have hcard := (Finset.card_erase_le (a := id) (s := A)).trans few
    exact Holds.uncached (Holds.set form rfl roaring hcard) rfl

theorem Holds.setRange
    (x y : Id) : Denotes (b.setRange x y) (A ∪ Finset.Ico x y) := by
  rw [Bitmap.setRange, h.toRoaring.2.1]
  exact h.rewritten _

theorem Holds.setMany (added : List Id) :
    Denotes (b.setMany added) (A ∪ added.toFinset) := by
  rw [Bitmap.setMany]
  split
  · rename_i hnil
    rw [hnil, toFinset_nil, Finset.union_empty]
    exact h.dropCache
  · rw [h.toRoaring.2.1]
    exact h.rewritten _

theorem Holds.foldl_setId (added : List Id) :
    Holds (added.foldl Bitmap.setId b) (A ∪ added.toFinset) := by
  induction added generalizing b A with
  | nil =>
    rw [toFinset_nil, Finset.union_empty]
    exact h
  | cons id rest ih =>
    have hrest := ih (h.setId id).holds
    rw [toFinset_cons, ← Finset.insert_eq_of_mem (a := id) (s := A ∪
      insert id rest.toFinset) (by simp), ← Finset.insert_union,
      Finset.union_insert, ← Finset.insert_union, Finset.insert_idem]
    exact hrest

theorem Holds.foldl_unset (removed : List Id) :
    Holds (removed.foldl Bitmap.unset b) (A \ removed.toFinset) := by
  induction removed generalizing b A with
  | nil =>
    rw [toFinset_nil, Finset.sdiff_empty]
    exact h
  | cons id rest ih =>
    have hrest := ih (h.unset id).holds
    rw [toFinset_cons, Finset.sdiff_insert, ← Finset.erase_sdiff_comm]
    exact hrest

end

theorem toFinset_ids (s : Finset Id) : (ids s).toFinset = s :=
  Finset.sort_toFinset s _

/-!
# Set operations
-/

theorem Holds.union {b other : Bitmap} {A B : Finset Id} (h : Holds b A)
    (hother : Holds other B) : Denotes (b.union other) (A ∪ B) := by
  rw [Bitmap.union]
  rcases hother.form_cases with ⟨form, heq⟩ | ⟨form, heq⟩
  · rw [if_pos form, h.toRoaring.2.1, heq]
    exact h.rewritten _
  · rw [if_neg ((Bool.not_eq_true _).mpr form), heq]
    have hfold := h.foldl_setId (ids B)
    rw [toFinset_ids] at hfold
    exact hfold.dropCache

/-- Without a cached count, or when one operand is not a Roaring bitmap, the
count is not out of date after a subtraction. -/
theorem Holds.exclude {b other b' : Bitmap} {A B : Finset Id} {same : Bool}
    (h : Holds b A) (hother : Holds other B)
    (hrun : b.exclude other same = some b') : Holds b' (A \ B) := by
  rw [Bitmap.exclude] at hrun
  split at hrun
  · rename_i hboth
    split at hrun
    · cases hrun
    cases hrun
    rw [Bool.and_eq_true] at hboth
    rcases h with ⟨form, ids, set⟩ | ⟨form, ids, roaring, few⟩
    · rcases hother.form_cases with ⟨_, heq⟩ | ⟨hform, _⟩
      · rw [ids, heq]
        exact Holds.roaring form rfl set
      · rw [hform] at hboth
        cases hboth.2
    · rw [form] at hboth
      cases hboth.1
  · split at hrun
    · rename_i hset
      split at hrun
      · cases hrun
      cases hrun
      rcases hother.form_cases with ⟨hform, _⟩ | ⟨_, heq⟩
      · rw [hform] at hset
        cases hset
      · have hfold := h.foldl_unset (ids B)
        rw [toFinset_ids] at hfold
        rw [heq]
        exact hfold.dropCache.holds
    · rename_i hnotBoth hroaring
      cases hrun
      rcases h with ⟨form, ids, set⟩ | ⟨form, ids, roaring, few⟩
      · rw [form] at hnotBoth
        simp only [Bool.true_and] at hnotBoth
        simp only [hnotBoth, Bool.not_false, not_true] at hroaring
      · have hfilter : A.filter (fun id => other.isset id = false) = A \ B := by
          ext id
          rw [Finset.mem_filter, Finset.mem_sdiff, hother.isset,
            decide_eq_false_iff_not]
        have hcard := Finset.card_le_card (Finset.sdiff_subset (s := A) (t := B))
        rw [ids, hfilter]
        exact Holds.set form rfl roaring (hcard.trans few)

theorem Holds.intersect {b other : Bitmap} {A B : Finset Id} (h : Holds b A)
    (hother : Holds other B) : Holds (b.intersect other) (A ∩ B) := by
  rw [Bitmap.intersect]
  rcases h with ⟨form, ids, set⟩ | ⟨form, ids, roaring, few⟩
  · rcases hother with ⟨hform, hids, _⟩ | ⟨hform, hids, _, hfew⟩
    · rw [form, hform, ids, hids]
      exact Holds.roaring rfl rfl set
    have hfilter : B.filter (fun id => b.isset id = true) = A ∩ B := by
      ext id
      rw [Finset.mem_filter, Finset.mem_inter,
        (Holds.roaring form ids set).isset, decide_eq_true_iff, and_comm]
    have hcard := Finset.card_le_card (Finset.inter_subset_right : A ∩ B ⊆ B)
    simp only [form, hform, Bool.and_false, Bool.false_eq_true, if_false,
      if_true, hids, hfilter]
    exact Holds.set rfl rfl rfl (hcard.trans hfew)
  · have hfilter : A.filter (fun id => other.isset id = true) = A ∩ B := by
      ext id
      rw [Finset.mem_filter, Finset.mem_inter, hother.isset, decide_eq_true_iff]
    have hcard := Finset.card_le_card (Finset.inter_subset_left : A ∩ B ⊆ A)
    simp only [form, Bool.false_and, Bool.false_eq_true, if_false, ids, hfilter]
    exact Holds.set rfl rfl roaring (hcard.trans few)

theorem Holds.xor {b other b' : Bitmap} {A B : Finset Id} {same : Bool}
    (h : Holds b A) (hother : Holds other B)
    (hrun : b.xor other same = some b') : Denotes b' (symmDiff A B) := by
  rw [Bitmap.xor] at hrun
  split at hrun
  · cases hrun
  cases hrun
  have hids : (if other.isRoaring = true then other.roaring
      else other.set) = B := by
    rcases hother.form_cases with ⟨form, heq⟩ | ⟨form, heq⟩
    · rw [if_pos form, heq]
    · rw [if_neg ((Bool.not_eq_true _).mpr form), heq]
  rw [hids, h.toRoaring.2.1]
  exact h.rewritten _

/-- The first loop of `FastUnion` takes up all Roaring operands, and leaves
the others. -/
theorem lazyUnions_spec (acc : Finset Id) (others : List Bitmap) :
    (forall id, id ∈ (lazyUnions acc others).1 <->
      id ∈ acc ∨ exists b, b ∈ others ∧ b.isRoaring = true ∧ id ∈ b.roaring) ∧
    forall b, b ∈ (lazyUnions acc others).2 <->
      b ∈ others ∧ b.isRoaring = false := by
  fun_induction lazyUnions acc others with
  | case1 acc => simp
  | case2 acc other rest form hlast =>
    rw [getLast?_eq_none_iff] at hlast
    subst hlast
    simp [form]
  | case3 acc other rest form last hlast ih =>
    rcases getLast?_eq_some_iff.mp hlast with ⟨front, rfl⟩
    rw [dropLast_concat] at ih ⊢
    have hrest : forall b, b ∈ last :: front <-> b ∈ front ++ [last] := by
      intro b
      rw [mem_cons, mem_append, mem_singleton, or_comm]
    constructor
    · intro id
      rw [ih.1, Finset.mem_union, or_assoc]
      apply or_congr_right
      simp only [hrest, mem_cons, or_and_right,
        exists_or, exists_eq_left, form, true_and]
    · intro b
      rw [ih.2, hrest, mem_cons]
      constructor
      · exact fun h => ⟨.inr h.1, h.2⟩
      · rintro ⟨rfl | hmem, hform⟩
        · rw [form] at hform
          cases hform
        · exact ⟨hmem, hform⟩
  | case4 acc other rest form later ih =>
    have hform := (Bool.not_eq_true _).mp form
    constructor
    · intro id
      rw [ih.1]
      apply or_congr_right
      simp only [mem_cons, or_and_right, exists_or, exists_eq_left,
        hform, Bool.false_eq_true, false_and, false_or]
    · intro b
      rw [mem_cons, ih.2, mem_cons, or_and_right]
      apply or_congr_left
      constructor
      · rintro rfl
        exact ⟨rfl, hform⟩
      · exact fun h => h.1

theorem Holds.foldl_union (h : Holds b A)
    {others : List Bitmap} {f : Bitmap -> Finset Id}
    (hothers : forall other, other ∈ others -> Holds other (f other)) :
    exists B, Holds (others.foldl
        (fun (acc other : Bitmap) => (acc.union other).dropCache) b) B ∧
      forall id, id ∈ B <-> id ∈ A ∨
        exists other, other ∈ others ∧ id ∈ f other := by
  induction others generalizing b A with
  | nil =>
    exact ⟨A, h, fun id => by simp⟩
  | cons other rest ih =>
    have hfirst := (h.union (hothers other mem_cons_self)).holds
    rcases ih hfirst.dropCache.holds
        fun x hx => hothers x (mem_cons_of_mem _ hx) with
      ⟨B, hB, hmem⟩
    refine ⟨B, hB, ?_⟩
    intro id
    rw [hmem, Finset.mem_union, or_assoc]
    apply or_congr_right
    simp only [mem_cons, or_and_right, exists_or, exists_eq_left]

/-- The set in whichever form is in use. -/
def denote (b : Bitmap) : Finset Id :=
  b.roaring ∪ b.set

theorem Holds.denote_eq (h : Holds b A) :
    b.denote = A := by
  rcases h with ⟨_, ids, set⟩ | ⟨_, ids, roaring, _⟩
  · rw [denote, ids, set, Finset.union_empty]
  · rw [denote, ids, roaring, Finset.empty_union]

theorem Denotes.fastUnion (h : Denotes b A)
    {others : List (Option Bitmap)}
    (hothers : forall x, some x ∈ others -> Holds x x.denote)
    (hself : 2 ≤ others.length -> none ∉ others) :
    exists b' B, b.fastUnion others = some b' ∧ Denotes b' B ∧
      forall id, id ∈ B <-> id ∈ A ∨
        exists x, some x ∈ others ∧ id ∈ x.denote := by
  match others, hothers, hself with
  | [], _, _ =>
    exact ⟨b, A, rfl, h, fun id => by simp⟩
  | [none], _, _ =>
    refine ⟨_, A ∪ A, rfl, (h.holds.union h.holds).holds.dropCache, ?_⟩
    intro id
    simp
  | [some x], hothers, _ =>
    have hx := hothers x mem_cons_self
    refine ⟨_, A ∪ x.denote, rfl, (h.holds.union hx).holds.dropCache, ?_⟩
    intro id
    simp
  | first :: second :: rest, hothers, hself =>
    have hnone := hself (Nat.le_add_left 2 _)
    rw [Bitmap.fastUnion, if_neg hnone]
    · generalize first :: second :: rest = others at hothers
      have hmem : forall x, x ∈ others.filterMap id <-> some x ∈ others := by
        simp
      have hlazy := lazyUnions_spec b.toRoaring.roaring (others.filterMap id)
      have hstart : Holds { b.toRoaring with
          roaring := (lazyUnions b.toRoaring.roaring (others.filterMap id)).1 }
          (lazyUnions b.toRoaring.roaring (others.filterMap id)).1 :=
        .roaring h.holds.toRoaring.1 rfl h.holds.toRoaring.2.2
      rcases hstart.foldl_union (f := denote) fun x hx =>
          hothers x ((hmem x).mp ((hlazy.2 x).mp hx).1) with ⟨B, hB, hunion⟩
      refine ⟨_, B, rfl, hB.dropCache, ?_⟩
      intro id
      have hA := h.holds.toRoaring.2.1
      rw [hunion, hlazy.1, or_assoc]
      apply or_congr (by rw [hA])
      constructor
      · rintro (⟨x, hx, form, hid⟩ | ⟨x, hx, hid⟩)
        · exact ⟨x, (hmem x).mp hx, Finset.mem_union_left _ hid⟩
        · exact ⟨x, (hmem x).mp ((hlazy.2 x).mp hx).1, hid⟩
      · rintro ⟨x, hx, hid⟩
        have hin := (hmem x).mpr hx
        rcases (hothers x hx).form_cases with ⟨form, heq⟩ | ⟨form, _⟩
        · exact .inl ⟨x, hin, form, heq ▸ hid⟩
        · exact .inr ⟨x, (hlazy.2 x).mpr ⟨hin, form⟩, hid⟩
    · intro hnil
      cases hnil
    · intro other hsingle
      cases hsingle

/-!
# Counts and lists
-/

theorem Denotes.getCachedNbit
    (h : Denotes b A) : b.getCachedNbit.1 = A.card % 2 ^ 32 ∧
      Denotes b.getCachedNbit.2 A := by
  rw [Bitmap.getCachedNbit]
  split
  · rename_i hcache
    exact ⟨h.cached hcache, h⟩
  · refine ⟨h.holds.nbit, ?_, fun _ => h.holds.nbit⟩
    cases h.holds with
    | roaring form ids set =>
      exact Holds.roaring form ids set
    | set form ids roaring few =>
      exact Holds.set form ids roaring few

theorem Holds.getSetList (h : Holds b A)
    (hcard : A.card < 2 ^ 32) : b.getSetList = some (ids A) := by
  rw [Bitmap.getSetList, h.nbit, Nat.mod_eq_of_lt hcard]
  rcases h.form_cases with ⟨form, heq⟩ | ⟨form, heq⟩
  · rw [if_pos form, heq, if_neg (lt_irrefl _)]
  · rw [if_neg ((Bool.not_eq_true _).mpr form), heq]

/-- The ids of a page. -/
def page (A : Finset Id) (limit offset : Id) : List Id :=
  ((ids A).drop offset.val).take limit.val

theorem length_page (A : Finset Id) (limit offset : Id) :
    (page A limit offset).length = min limit.val (A.card - offset.val) := by
  rw [page, length_take, length_drop, length_ids]

theorem Denotes.getRangeList (h : Denotes b A)
    (hcard : A.card < 2 ^ 32) (result : List Id) (limit offset : Id) :
    exists result', b.getRangeList result limit offset =
        some (((page A limit offset).length, result'), b.getCachedNbit.2) ∧
      result'.take (page A limit offset).length = page A limit offset := by
  have hcount : b.getCachedNbit.1 = A.card := by
    rw [h.getCachedNbit.1, Nat.mod_eq_of_lt hcard]
  have hlength := length_page A limit offset
  rw [Bitmap.getRangeList, hcount]
  dsimp only
  by_cases hnone : A.card ≤ offset.val ∨
      min ((A.card + 2 ^ 32 - offset.val) % 2 ^ 32) limit.val = 0
  · have hzero : (page A limit offset).length = 0 := by
      have hoffset := offset.isLt
      omega
    rw [if_pos hnone, hzero, length_eq_zero_iff.mp hzero]
    exact ⟨result, rfl, rfl⟩
  · have hreal : min ((A.card + 2 ^ 32 - offset.val) % 2 ^ 32) limit.val =
        (page A limit offset).length := by
      have hoffset := offset.isLt
      omega
    have hpage : ((ids A).drop offset.val).take
        (page A limit offset).length = page A limit offset := by
      rw [hlength, ← length_ids, ← length_drop, page, ← take_take,
        take_length]
    rw [if_neg hnone, hreal]
    rcases h.holds.form_cases with ⟨form, heq⟩ | ⟨form, heq⟩
    · rw [if_pos form, heq, hpage]
      exact ⟨_, rfl, take_left⟩
    · have hinside : ¬ A.card < offset.val + (page A limit offset).length := by
        omega
      rw [if_neg ((Bool.not_eq_true _).mpr form), heq, if_neg hinside, hpage]
      exact ⟨_, rfl, take_length⟩

/-!
# Stored form
-/

theorem Denotes.parseFromString (codec : Codec) (b : Bitmap)
    (s : List UInt8) (portable : Bool) :
    (b.parseFromString codec s portable).1 =
        (codec.read portable s).isSome ∧
      Denotes (b.parseFromString codec s portable).2
        ((codec.read portable s).getD ∅) := by
  rw [Bitmap.parseFromString]
  cases codec.read portable s with
  | none =>
    exact ⟨rfl, Holds.uncached (.roaring rfl rfl rfl) rfl⟩
  | some found =>
    dsimp only
    split
    · rename_i hfew
      exact ⟨rfl, Holds.uncached (.set rfl rfl rfl hfew) rfl⟩
    · exact ⟨rfl, Holds.uncached (.roaring rfl rfl rfl) rfl⟩

end Bitmap
end Holder
end OpenViking
