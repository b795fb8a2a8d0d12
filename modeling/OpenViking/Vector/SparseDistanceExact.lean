import OpenViking.Vector.SparseDistance
import Mathlib.Algebra.BigOperators.Group.List.Lemmas
import Mathlib.Algebra.BigOperators.Group.Finset.Basic
import Mathlib.Tactic.Ring

/-!
# The kernels are the sums

What the loops have counted and what their windows still hold is the sum over
the whole arrays.
-/

namespace OpenViking
namespace Vector

open List Nat

/-!
# Sums over matches
-/

section MatchSum

variable {ι T U R : Type} [LinearOrder ι] [AddCommMonoid R] (term : T -> U -> R)

/-- The terms of an entry with the entries of the same index. -/
def rowSum (p : ι × T) (ys : List (ι × U)) : R :=
  (ys.map fun q => if p.1 = q.1 then term p.2 q.2 else 0).sum

def matchSum (xs : List (ι × T)) (ys : List (ι × U)) : R :=
  (xs.map fun p => rowSum term p ys).sum

variable {term}

variable {ys : List (ι × U)}

theorem rowSum_eq_zero {p : ι × T}
    (h : forall q, q ∈ ys -> p.1 ≠ q.1) : rowSum term p ys = 0 := by
  apply sum_eq_zero
  intro x hx
  rcases mem_map.mp hx with ⟨q, hq, rfl⟩
  exact if_neg (h q hq)

theorem matchSum_cons (p : ι × T) (xs : List (ι × T)) (ys : List (ι × U)) :
    matchSum term (p :: xs) ys = rowSum term p ys + matchSum term xs ys := by
  rw [matchSum, map_cons, sum_cons]
  rfl

theorem matchSum_nil_left (ys : List (ι × U)) :
    matchSum term ([] : List (ι × T)) ys = 0 :=
  rfl

variable {xs : List (ι × T)}

theorem matchSum_skip_right {r : ι × U} (h : forall p, p ∈ xs -> p.1 ≠ r.1) :
    matchSum term xs (r :: ys) = matchSum term xs ys := by
  induction xs with
  | nil => rfl
  | cons p xs ih =>
    have hrow : rowSum term p (r :: ys) = rowSum term p ys := by
      rw [rowSum, map_cons, sum_cons,
        if_neg (h p mem_cons_self), zero_add]
      rfl
    rw [matchSum_cons, matchSum_cons, hrow,
      ih fun p' hp => h p' (mem_cons_of_mem _ hp)]

theorem matchSum_skip_left {p : ι × T} (h : forall q, q ∈ ys -> p.1 ≠ q.1) :
    matchSum term (p :: xs) ys = matchSum term xs ys := by
  rw [matchSum_cons, rowSum_eq_zero h, zero_add]

theorem matchSum_both {p : ι × T} {r : ι × U} (heq : p.1 = r.1)
    (hp : forall q, q ∈ ys -> p.1 ≠ q.1) (hr : forall p', p' ∈ xs -> p'.1 ≠ r.1) :
    matchSum term (p :: xs) (r :: ys) = term p.2 r.2 + matchSum term xs ys := by
  have hrow : rowSum term p (r :: ys) = term p.2 r.2 := by
    have hzero : rowSum term p ys = 0 := rowSum_eq_zero hp
    rw [rowSum] at hzero
    rw [rowSum, map_cons, sum_cons, if_pos heq, hzero, add_zero]
  rw [matchSum_cons, hrow, matchSum_skip_right hr]

theorem matchSum_nil_right (xs : List (ι × T)) :
    matchSum term xs ([] : List (ι × U)) = 0 := by
  apply sum_eq_zero
  intro x hx
  rcases mem_map.mp hx with ⟨p, _, rfl⟩
  rfl

theorem matchSum_perm {xs' : List (ι × T)} {ys' : List (ι × U)}
    (hx : xs.Perm xs') (hy : ys.Perm ys') :
    matchSum term xs ys = matchSum term xs' ys' := by
  have hrows : forall p : ι × T, rowSum term p ys = rowSum term p ys' :=
    fun p => (hy.map _).sum_eq
  rw [matchSum, (hx.map _).sum_eq, matchSum]
  exact congrArg (fun f => (xs'.map f).sum) (funext hrows)

end MatchSum

/-!
# Sums over all entries
-/

theorem notMem_keys {ι R : Type} {p : ι × R} {ys : List (ι × R)}
    (h : forall q, q ∈ ys -> p.1 ≠ q.1) : p.1 ∉ ys.map Prod.fst := by
  intro hmem
  rcases mem_map.mp hmem with ⟨q, hq, heq⟩
  exact h q hq heq.symm

section UnionSum

variable {ι R : Type} [LinearOrder ι] [AddCommMonoid R] (two : R -> R -> R)
  (one : R -> R)

/-- The entries whose index the other list does not have. -/
def aloneSum (xs ys : List (ι × R)) : R :=
  (xs.map fun p => if p.1 ∈ ys.map Prod.fst then 0 else one p.2).sum

def unionSum (xs ys : List (ι × R)) : R :=
  matchSum two xs ys + (aloneSum one xs ys + aloneSum one ys xs)

variable {two one}

theorem aloneSum_cons_left (p : ι × R) (xs ys : List (ι × R)) :
    aloneSum one (p :: xs) ys =
      (if p.1 ∈ ys.map Prod.fst then 0 else one p.2) + aloneSum one xs ys := by
  rw [aloneSum, map_cons, sum_cons]
  rfl

variable {xs ys : List (ι × R)}

theorem aloneSum_cons_right {r : ι × R} (h : forall p, p ∈ xs -> p.1 ≠ r.1) :
    aloneSum one xs (r :: ys) = aloneSum one xs ys := by
  rw [aloneSum, aloneSum]
  congr 1
  apply map_congr_left
  intro p hp
  by_cases hmem : p.1 ∈ ys.map Prod.fst
  · have hthere : p.1 ∈ (r :: ys).map Prod.fst := mem_cons_of_mem _ hmem
    rw [if_pos hthere, if_pos hmem]
  · have hother : p.1 ∉ (r :: ys).map Prod.fst := fun h' =>
      (mem_cons.mp h').elim (h p hp) hmem
    rw [if_neg hother, if_neg hmem]

theorem unionSum_left {p : ι × R} (h : forall q, q ∈ ys -> p.1 ≠ q.1) :
    unionSum two one (p :: xs) ys = one p.2 + unionSum two one xs ys := by
  have hother : aloneSum one ys (p :: xs) = aloneSum one ys xs :=
    aloneSum_cons_right fun q hq => (h q hq).symm
  rw [unionSum, matchSum_skip_left h, aloneSum_cons_left,
    if_neg (notMem_keys h), hother, unionSum, add_assoc, add_left_comm]

theorem aloneSum_perm {xs' ys' : List (ι × R)} (hx : xs.Perm xs')
    (hy : ys.Perm ys') : aloneSum one xs ys = aloneSum one xs' ys' := by
  have hmem : forall i : ι, i ∈ ys.map Prod.fst <-> i ∈ ys'.map Prod.fst :=
    fun i => (hy.map _).mem_iff
  rw [aloneSum, (hx.map _).sum_eq, aloneSum]
  simp only [hmem]

theorem unionSum_perm {xs' ys' : List (ι × R)} (hx : xs.Perm xs')
    (hy : ys.Perm ys') : unionSum two one xs ys = unionSum two one xs' ys' := by
  rw [unionSum, unionSum, matchSum_perm hx hy, aloneSum_perm hx hy,
    aloneSum_perm hy hx]

theorem unionSum_right {r : ι × R} (h : forall p, p ∈ xs -> p.1 ≠ r.1) :
    unionSum two one xs (r :: ys) = one r.2 + unionSum two one xs ys := by
  have hkeys : r.1 ∉ xs.map Prod.fst := notMem_keys fun p hp => (h p hp).symm
  rw [unionSum, matchSum_skip_right h, aloneSum_cons_right h,
    aloneSum_cons_left r ys xs, if_neg hkeys, unionSum, add_left_comm (one r.2)]
  rw [add_left_comm (one r.2)]

theorem unionSum_both {p r : ι × R} (heq : p.1 = r.1)
    (hp : forall q, q ∈ ys -> p.1 ≠ q.1) (hr : forall p', p' ∈ xs -> p'.1 ≠ r.1) :
    unionSum two one (p :: xs) (r :: ys) =
      two p.2 r.2 + unionSum two one xs ys := by
  have hleft : p.1 ∈ (r :: ys).map Prod.fst := heq ▸ mem_cons_self
  have hright : r.1 ∈ (p :: xs).map Prod.fst := heq ▸ mem_cons_self
  have hys : forall q, q ∈ ys -> q.1 ≠ p.1 := fun q hq => (hp q hq).symm
  rw [unionSum, matchSum_both heq hp hr, aloneSum_cons_left,
    aloneSum_cons_left r, if_pos hleft, if_pos hright, zero_add, zero_add,
    aloneSum_cons_right hr, aloneSum_cons_right hys, unionSum, add_assoc]

end UnionSum

/-!
# Sorted entries
-/

/-- The indices of the entries increase. -/
def Sorted {ι α : Type} [LinearOrder ι] (xs : List (ι × α)) : Prop :=
  xs.Pairwise fun p q => p.1 < q.1

section Sorted

variable {ι α β : Type} [LinearOrder ι] {xs : List (ι × α)} {ys : List (ι × β)}
  {p : ι × α} {r : ι × β}

theorem Sorted.lt_of_mem_tail (h : Sorted (p :: xs)) {q : ι × α} (hq : q ∈ xs) :
    p.1 < q.1 :=
  (pairwise_cons.mp h).1 q hq

theorem Sorted.lt_of_mem_front (h : Sorted (xs ++ [p])) {q : ι × α}
    (hq : q ∈ xs) : q.1 < p.1 :=
  (pairwise_append.mp h).2.2 q hq p mem_cons_self

theorem Sorted.sublist (h : Sorted xs) {xs' : List (ι × α)}
    (hsub : xs'.Sublist xs) : Sorted xs' :=
  List.Pairwise.sublist hsub h

theorem Sorted.ne_of_lt (h : Sorted (r :: ys)) (hlt : p.1 < r.1) {q : ι × β}
    (hq : q ∈ r :: ys) : p.1 ≠ q.1 := by
  rcases mem_cons.mp hq with rfl | htail
  · exact hlt.ne
  · exact (lt_trans hlt (h.lt_of_mem_tail htail)).ne

theorem Sorted.ne_of_gt (h : Sorted (ys ++ [r])) (hlt : r.1 < p.1) {q : ι × β}
    (hq : q ∈ ys ++ [r]) : p.1 ≠ q.1 := by
  rcases mem_append.mp hq with hfront | hlast
  · exact (lt_trans (h.lt_of_mem_front hfront) hlt).ne'
  · rw [mem_singleton.mp hlast]
    exact hlt.ne'

end Sorted

namespace SparseDatapointView

variable {ι value : Type} [LinearOrder ι] (v : SparseDatapointView ι value)

theorem map_fst_entries : v.entries.map Prod.fst = v.indices :=
  map_fst_zip (le_of_eq v.lengths.symm)

theorem map_snd_entries : v.entries.map Prod.snd = v.values :=
  map_snd_zip (le_of_eq v.lengths)

theorem length_entries : v.entries.length = v.nonzeroEntries := by
  rw [← length_map Prod.fst, v.map_fst_entries]
  rfl

theorem sorted_entries : Sorted v.entries := by
  have h := v.increasing
  rw [← v.map_fst_entries] at h
  exact pairwise_map.mp h

variable {v}

theorem indices_of_entries {i : Nat} {p : ι × value}
    (h : v.entries[i]? = some p) : v.indices[i]? = some p.1 := by
  rw [← v.map_fst_entries, getElem?_map, h]
  rfl

theorem values_of_entries {i : Nat} {p : ι × value}
    (h : v.entries[i]? = some p) : v.values[i]? = some p.2 := by
  rw [← v.map_snd_entries, getElem?_map, h]
  rfl

end SparseDatapointView

/-!
# One end of a turn
-/

/-- At an end of the windows one entry has no partner, or both match. -/
inductive Meets {ι α β : Type} (p : ι × α) (xs : List (ι × α)) (r : ι × β)
    (ys : List (ι × β)) : Bool -> Bool -> Prop where
  | left (h : forall q, q ∈ r :: ys -> p.1 ≠ q.1) : Meets p xs r ys true false
  | right (h : forall q, q ∈ p :: xs -> q.1 ≠ r.1) : Meets p xs r ys false true
  | both (heq : p.1 = r.1) (hp : forall q, q ∈ ys -> p.1 ≠ q.1)
      (hr : forall q, q ∈ xs -> q.1 ≠ r.1) : Meets p xs r ys true true

section Ends

variable {ι α β : Type} [LinearOrder ι] {xs : List (ι × α)} {ys : List (ι × β)}
  {p : ι × α} {r : ι × β}

theorem meets_front (hx : Sorted (p :: xs)) (hy : Sorted (r :: ys)) :
    Meets p xs r ys (decide (p.1 ≤ r.1)) (decide (p.1 ≥ r.1)) := by
  rcases lt_trichotomy p.1 r.1 with hlt | heq | hgt
  · rw [decide_eq_true hlt.le, decide_eq_false (not_le.mpr hlt)]
    exact .left fun q hq => hy.ne_of_lt hlt hq
  · rw [decide_eq_true heq.le, decide_eq_true heq.ge]
    refine .both heq (fun q hq => ?_) fun q hq => ?_
    · rw [heq]
      exact (hy.lt_of_mem_tail hq).ne
    · rw [← heq]
      exact (hx.lt_of_mem_tail hq).ne'
  · rw [decide_eq_false (not_le.mpr hgt), decide_eq_true hgt.le]
    exact .right fun q hq => (hx.ne_of_lt hgt hq).symm

theorem meets_back (hx : Sorted (xs ++ [p])) (hy : Sorted (ys ++ [r])) :
    Meets p xs r ys (decide (p.1 ≥ r.1)) (decide (p.1 ≤ r.1)) := by
  have hpush : forall {α : Type} {q a : α} {as : List α}, q ∈ a :: as ->
      q ∈ as ++ [a] := fun hq =>
    (mem_cons.mp hq).elim
      (fun h => mem_append.mpr (Or.inr (mem_singleton.mpr h)))
      (fun h => mem_append.mpr (Or.inl h))
  rcases lt_trichotomy p.1 r.1 with hlt | heq | hgt
  · rw [decide_eq_false (not_le.mpr hlt), decide_eq_true hlt.le]
    exact .right fun q hq => (hx.ne_of_gt hlt (hpush hq)).symm
  · rw [decide_eq_true heq.ge, decide_eq_true heq.le]
    refine .both heq (fun q hq => ?_) fun q hq => ?_
    · rw [heq]
      exact (hy.lt_of_mem_front hq).ne'
    · rw [← heq]
      exact (hx.lt_of_mem_front hq).ne
  · rw [decide_eq_true hgt.le, decide_eq_false (not_le.mpr hgt)]
    exact .left fun q hq => hy.ne_of_gt hgt (hpush hq)

theorem keepBack_perm {γ : Type} (moves : Bool) (as : List γ) (a : γ) :
    (keepBack moves as a).Perm (keepFront moves a as) := by
  cases moves with
  | true => exact List.Perm.refl _
  | false => exact perm_append_singleton a as

theorem length_keepFront {γ : Type} (moves : Bool) (a : γ) (as : List γ) :
    (keepFront moves a as).length + boolToSize moves = as.length + 1 := by
  cases moves with
  | true => rfl
  | false => rfl

theorem length_keepBack {γ : Type} (moves : Bool) (as : List γ) (a : γ) :
    (keepBack moves as a).length + boolToSize moves = as.length + 1 := by
  rw [(keepBack_perm moves as a).length_eq, length_keepFront]

/-- A turn takes at least one entry off, and what it leaves is sorted. -/
theorem turn_sorted {q : ι × α} {s : ι × β} (hx : Sorted (p :: (xs ++ [q])))
    (hy : Sorted (r :: (ys ++ [s]))) :
    Meets q (keepFront (decide (p.1 ≤ r.1)) p xs) s
        (keepFront (decide (p.1 ≥ r.1)) r ys) (decide (q.1 ≥ s.1))
        (decide (q.1 ≤ s.1)) ∧
      Sorted (keepBack (decide (q.1 ≥ s.1))
        (keepFront (decide (p.1 ≤ r.1)) p xs) q) ∧
      Sorted (keepBack (decide (q.1 ≤ s.1))
        (keepFront (decide (p.1 ≥ r.1)) r ys) s) := by
  have hfx : Sorted (keepFront (decide (p.1 ≤ r.1)) p xs ++ [q]) := by
    rw [← keepFront_append]
    exact hx.sublist (keepFront_sublist _ _ _)
  have hfy : Sorted (keepFront (decide (p.1 ≥ r.1)) r ys ++ [s]) := by
    rw [← keepFront_append]
    exact hy.sublist (keepFront_sublist _ _ _)
  exact ⟨meets_back hfx hfy, hfx.sublist (keepBack_sublist _ _ _),
    hfy.sublist (keepBack_sublist _ _ _)⟩

omit [LinearOrder ι] in
theorem Meets.moves {α β : Type} {p : ι × α} {xs : List (ι × α)} {r : ι × β}
    {ys : List (ι × β)} {moves moves' : Bool} (h : Meets p xs r ys moves moves') :
    1 ≤ boolToSize moves + boolToSize moves' := by
  cases h with
  | left => exact le_refl 1
  | right => exact le_refl 1
  | both => exact le_succ 1

omit [LinearOrder ι] in
theorem Meets.length_lt {α β : Type} {p q : ι × α} {xs : List (ι × α)} {r s : ι × β}
    {ys : List (ι × β)} {first first' moves moves' : Bool}
    (h : Meets q (keepFront first p xs) s (keepFront first' r ys) moves moves') :
    (keepBack moves (keepFront first p xs) q).length +
      (keepBack moves' (keepFront first' r ys) s).length <
    (p :: (xs ++ [q])).length + (r :: (ys ++ [s])).length := by
  have hlen1 := length_keepBack moves (keepFront first p xs) q
  have hlen2 := length_keepBack moves' (keepFront first' r ys) s
  have hlen3 := length_keepFront first p xs
  have hlen4 := length_keepFront first' r ys
  have hmoves := h.moves
  simp only [length_cons, length_append, length_nil]
  omega

end Ends

section MatchStep

variable {ι T U R : Type} [LinearOrder ι] [AddCommMonoid R] {term : T -> U -> R}
  {xs : List (ι × T)} {ys : List (ι × U)} {p : ι × T} {r : ι × U}

theorem Meets.matchSum {moves moves' : Bool}
    (h : Meets p xs r ys moves moves') :
    matchSum term (p :: xs) (r :: ys) =
      (if p.1 = r.1 then term p.2 r.2 else 0) +
        matchSum term (keepFront moves p xs) (keepFront moves' r ys) := by
  cases h with
  | left h =>
    rw [matchSum_skip_left h, if_neg (h r mem_cons_self), zero_add]
    rfl
  | right h =>
    rw [matchSum_skip_right h, if_neg (h p mem_cons_self), zero_add]
    rfl
  | both heq hp hr =>
    rw [matchSum_both heq hp hr, if_pos heq]
    rfl

theorem Meets.matchSum_back {moves moves' : Bool}
    (h : Meets p xs r ys moves moves') :
    Vector.matchSum term (xs ++ [p]) (ys ++ [r]) =
      (if p.1 = r.1 then term p.2 r.2 else 0) +
        Vector.matchSum term (keepBack moves xs p) (keepBack moves' ys r) := by
  rw [matchSum_perm (perm_append_singleton p xs)
      (perm_append_singleton r ys), h.matchSum,
    matchSum_perm (keepBack_perm moves xs p) (keepBack_perm moves' ys r)]

end MatchStep

section UnionStep

variable {ι R : Type} [LinearOrder ι] [AddCommMonoid R] {two : R -> R -> R}
  {one : R -> R} (hleft : forall a, two a 0 = one a)
  (hright : forall b, two 0 b = one b)
  {xs ys : List (ι × R)} {p r : ι × R}

include hleft hright

theorem Meets.unionSum {moves moves' : Bool}
    (h : Meets p xs r ys moves moves') :
    unionSum two one (p :: xs) (r :: ys) =
      two (masked moves p.2) (masked moves' r.2) +
        unionSum two one (keepFront moves p xs) (keepFront moves' r ys) := by
  cases h with
  | left h =>
    rw [unionSum_left h, ← hleft]
    rfl
  | right h =>
    rw [unionSum_right h, ← hright]
    rfl
  | both heq hp hr =>
    rw [unionSum_both heq hp hr]
    rfl

theorem Meets.unionSum_back {moves moves' : Bool}
    (h : Meets p xs r ys moves moves') :
    Vector.unionSum two one (xs ++ [p]) (ys ++ [r]) =
      two (masked moves p.2) (masked moves' r.2) +
        Vector.unionSum two one (keepBack moves xs p) (keepBack moves' ys r) := by
  rw [unionSum_perm (perm_append_singleton p xs)
      (perm_append_singleton r ys), h.unionSum hleft hright,
    unionSum_perm (keepBack_perm moves xs p) (keepBack_perm moves' ys r)]

end UnionStep

/-!
# The loops without a one-sided reducer
-/

section OnlyReduceTwo

variable {ι T U R : Type} [LinearOrder ι] [AddCommMonoid R]
  {reduceTwo : R -> T -> U -> R} {term : T -> U -> R}
  (hreduce : forall acc a b, reduceTwo acc a b = acc + term a b)
  {v : SparseDatapointView ι T} {w : SparseDatapointView ι U}

/-- The windows of the cursors in both arrays. -/
def Cursors.Holds (c : Cursors) (v : SparseDatapointView ι T)
    (w : SparseDatapointView ι U) (xs : List (ι × T)) (ys : List (ι × U)) : Prop :=
  Window v.entries c.front1 (c.back1 + 1) xs ∧
    Window w.entries c.front2 (c.back2 + 1) ys ∧ Sorted xs ∧ Sorted ys

include hreduce

theorem reduceMatch_eq {i j : Nat} {p : ι × T} {r : ι × U}
    (hp : v.entries[i]? = some p) (hr : w.entries[j]? = some r) (result : R) :
    reduceMatch reduceTwo v w i j result =
      some (result + if p.1 = r.1 then term p.2 r.2 else 0) := by
  rw [reduceMatch, SparseDatapointView.indices_of_entries hp,
    SparseDatapointView.indices_of_entries hr]
  dsimp only [Option.bind_eq_bind, Option.bind_some]
  split
  · rw [SparseDatapointView.values_of_entries hp,
      SparseDatapointView.values_of_entries hr]
    dsimp only [Option.bind_some]
    rw [hreduce]
  · rw [add_zero]

variable {c : Cursors} {xs : List (ι × T)} {ys : List (ι × U)}

omit hreduce [AddCommMonoid R] in
/-- A turn moves the windows with the cursors. -/
theorem Cursors.Holds.advance {p q : ι × T} {r s : ι × U}
    (h : c.Holds v w (p :: (xs ++ [q])) (r :: (ys ++ [s])))
    (h1 : c.front1 < c.back1) (h2 : c.front2 < c.back2) :
    exists c' : Cursors, c.advance v w = some c' ∧
      c'.Holds v w
        (keepBack (decide (q.1 ≥ s.1)) (keepFront (decide (p.1 ≤ r.1)) p xs) q)
        (keepBack (decide (q.1 ≤ s.1)) (keepFront (decide (p.1 ≥ r.1)) r ys) s) := by
  rcases h with ⟨hx, hy, hsx, hsy⟩
  have hp := SparseDatapointView.indices_of_entries hx.head.1
  have hr := SparseDatapointView.indices_of_entries hy.head.1
  have hx' : Window v.entries c.front1 (c.back1 + 1) ((p :: xs) ++ [q]) := hx
  have hy' : Window w.entries c.front2 (c.back2 + 1) ((r :: ys) ++ [s]) := hy
  have hq := SparseDatapointView.indices_of_entries hx'.last.1
  have hs := SparseDatapointView.indices_of_entries hy'.last.1
  have hsub : forall (n : Nat) (b : Bool), 0 < n ->
      subSize n (boolToSize b) = some (n - boolToSize b) := by
    intro n b hn
    rw [subSize, if_pos]
    cases b with
    | true => exact hn
    | false => exact zero_le n
  have hb1 : 0 < c.back1 := zero_lt_of_lt h1
  have hb2 : 0 < c.back2 := zero_lt_of_lt h2
  have hstop : forall (n : Nat) (b : Bool), 0 < n ->
      n + 1 - boolToSize b = n - boolToSize b + 1 := by
    intro n b hn
    cases b with
    | true => exact (succ_pred_eq_of_pos hn).symm
    | false => rfl
  refine ⟨⟨c.front1 + boolToSize (decide (p.1 ≤ r.1)),
    c.front2 + boolToSize (decide (p.1 ≥ r.1)),
    c.back1 - boolToSize (decide (q.1 ≥ s.1)),
    c.back2 - boolToSize (decide (q.1 ≤ s.1))⟩, ?_, ?_, ?_, ?_, ?_⟩
  · rw [Cursors.advance, hp, hr, hq, hs]
    dsimp only [Option.bind_eq_bind, Option.bind_some]
    rw [hsub _ _ hb1, hsub _ _ hb2]
    rfl
  · have hfront := hx.keepFront (decide (p.1 ≤ r.1))
    rw [keepFront_append] at hfront
    have hback := hfront.keepBack (decide (q.1 ≥ s.1))
    rw [hstop _ _ hb1] at hback
    exact hback
  · have hfront := hy.keepFront (decide (p.1 ≥ r.1))
    rw [keepFront_append] at hfront
    have hback := hfront.keepBack (decide (q.1 ≤ s.1))
    rw [hstop _ _ hb2] at hback
    exact hback
  · exact (turn_sorted hsx hsy).2.1
  · exact (turn_sorted hsx hsy).2.2

/-- What was counted and what the windows hold stays the same. -/
theorem shrinkLoop_spec {fuel : Nat} (h : c.Holds v w xs ys)
    (hfuel : xs.length + ys.length < fuel) (result : R) :
    exists (c' : Cursors) (result' : R) (xs' : List (ι × T))
      (ys' : List (ι × U)),
      shrinkLoop reduceTwo v w fuel c result = some (c', result') ∧
      c'.Holds v w xs' ys' ∧
      result' + matchSum term xs' ys' = result + matchSum term xs ys ∧
      ¬ (c'.front1 < c'.back1 ∧ c'.front2 < c'.back2) ∧
      xs'.length + ys'.length ≤ xs.length + ys.length := by
  induction fuel generalizing c xs ys result with
  | zero => exact absurd hfuel (not_lt_zero _)
  | succ fuel ih =>
    rw [shrinkLoop]
    by_cases hopen : c.front1 < c.back1 ∧ c.front2 < c.back2
    · rcases h.1.ends hopen.1 with ⟨p, q, xs, rfl⟩
      rcases h.2.1.ends hopen.2 with ⟨r, s, ys, rfl⟩
      rcases h.advance hopen.1 hopen.2 with ⟨c', hadvance, hholds⟩
      have hx : Window v.entries c.front1 (c.back1 + 1) ((p :: xs) ++ [q]) := h.1
      have hy : Window w.entries c.front2 (c.back2 + 1) ((r :: ys) ++ [s]) :=
        h.2.1
      have hfront := meets_front h.2.2.1 h.2.2.2
      have hback := (turn_sorted h.2.2.1 h.2.2.2).1
      have hlt := hback.length_lt
      rcases ih hholds (by omega)
        (result + (if p.1 = r.1 then term p.2 r.2 else 0) +
          if q.1 = s.1 then term q.2 s.2 else 0) with
        ⟨c'', result', xs', ys', hloop, hholds', hsum, hexit, hlen⟩
      refine ⟨c'', result', xs', ys', ?_, hholds', ?_, hexit, by omega⟩
      · rw [if_pos hopen, reduceMatch_eq hreduce h.1.head.1 h.2.1.head.1]
        dsimp only [Option.bind_eq_bind, Option.bind_some]
        rw [reduceMatch_eq hreduce hx.last.1 hy.last.1]
        dsimp only [Option.bind_some]
        rw [hadvance]
        exact hloop
      · rw [hsum, hfront.matchSum, keepFront_append, keepFront_append,
          hback.matchSum_back, add_assoc, add_assoc]
    · rw [if_neg hopen]
      exact ⟨c, result, xs, ys, rfl, h, rfl, hopen, le_refl _⟩

theorem searchSecond_spec {fuel : Nat} {p : ι × T} (hp : v.entries[c.front1]? = some p)
    (hy : Window w.entries c.front2 (c.back2 + 1) ys) (hs : Sorted ys)
    (hfuel : ys.length < fuel) (result : R) :
    searchSecond reduceTwo v w fuel c result =
      some (result + matchSum term [p] ys) := by
  induction fuel generalizing c ys with
  | zero => exact absurd hfuel (not_lt_zero _)
  | succ fuel ih =>
    rw [searchSecond]
    cases ys with
    | nil =>
      have hlen := hy.length
      rw [length_nil] at hlen
      rw [if_neg (by omega), matchSum_nil_right, add_zero]
    | cons r ys =>
      have hlen := hy.length
      rw [length_cons] at hlen hfuel
      rw [if_pos (by omega), SparseDatapointView.indices_of_entries hp,
        SparseDatapointView.indices_of_entries hy.head.1]
      dsimp only [Option.bind_eq_bind, Option.bind_some]
      split
      · rename_i heq
        have hboth : matchSum term [p] (r :: ys) = term p.2 r.2 := by
          rw [matchSum_both heq (fun q hq => heq ▸ (hs.lt_of_mem_tail hq).ne)
            (fun _ hq => absurd hq not_mem_nil), matchSum_nil_left, add_zero]
        rw [reduceMatch_eq hreduce hp hy.head.1, if_pos heq, hboth]
      · rename_i hne
        have hskip : matchSum term [p] (r :: ys) = matchSum term [p] ys :=
          matchSum_skip_right fun q hq =>
            (mem_singleton.mp hq) ▸ hne
        rw [hskip]
        exact ih hp hy.head.2
          (hs.sublist (sublist_cons_self r ys)) (by omega)

theorem searchFirst_spec {fuel : Nat} {r : ι × U} (hr : w.entries[c.front2]? = some r)
    (hx : Window v.entries c.front1 (c.back1 + 1) xs) (hs : Sorted xs)
    (hfuel : xs.length < fuel) (result : R) :
    searchFirst reduceTwo v w fuel c result =
      some (result + matchSum term xs [r]) := by
  induction fuel generalizing c xs with
  | zero => exact absurd hfuel (not_lt_zero _)
  | succ fuel ih =>
    rw [searchFirst]
    cases xs with
    | nil =>
      have hlen := hx.length
      rw [length_nil] at hlen
      rw [if_neg (by omega), matchSum_nil_left, add_zero]
    | cons p xs =>
      have hlen := hx.length
      rw [length_cons] at hlen hfuel
      rw [if_pos (by omega), SparseDatapointView.indices_of_entries hr,
        SparseDatapointView.indices_of_entries hx.head.1]
      dsimp only [Option.bind_eq_bind, Option.bind_some]
      split
      · rename_i heq
        have hboth : matchSum term (p :: xs) [r] = term p.2 r.2 := by
          rw [matchSum_both heq (fun _ hq => absurd hq not_mem_nil)
            (fun q hq => heq ▸ (hs.lt_of_mem_tail hq).ne'),
            matchSum_nil_right, add_zero]
        rw [reduceMatch_eq hreduce hx.head.1 hr, if_pos heq, hboth]
      · rename_i hne
        have hskip : matchSum term (p :: xs) [r] = matchSum term xs [r] :=
          matchSum_skip_left fun q hq =>
            (mem_singleton.mp hq) ▸ hne
        rw [hskip]
        exact ih hr hx.head.2
          (hs.sublist (sublist_cons_self p xs)) (by omega)

theorem onlyReduceTwo_eq_matchSum :
    sparseDistanceMeasureOnlyReduceTwo reduceTwo v w =
      some (matchSum term v.entries w.entries) := by
  have hlen1 := v.length_entries
  have hlen2 := w.length_entries
  rw [sparseDistanceMeasureOnlyReduceTwo]
  by_cases hempty : v.nonzeroEntries = 0 ∨ w.nonzeroEntries = 0
  · rw [if_pos hempty]
    rcases hempty with hzero | hzero
    · rw [length_eq_zero_iff.mp (hlen1.trans hzero), matchSum_nil_left]
    · rw [length_eq_zero_iff.mp (hlen2.trans hzero), matchSum_nil_right]
  have hpos1 : 1 ≤ v.nonzeroEntries := Nat.one_le_iff_ne_zero.mpr
    fun h => hempty (Or.inl h)
  have hpos2 : 1 ≤ w.nonzeroEntries := Nat.one_le_iff_ne_zero.mpr
    fun h => hempty (Or.inr h)
  have hstart : Cursors.Holds
      ⟨0, 0, v.nonzeroEntries - 1, w.nonzeroEntries - 1⟩ v w v.entries
      w.entries := by
    refine ⟨?_, ?_, v.sorted_entries, w.sorted_entries⟩
    · show Window v.entries 0 (v.nonzeroEntries - 1 + 1) v.entries
      rw [Nat.sub_add_cancel hpos1, ← hlen1]
      exact window_whole _
    · show Window w.entries 0 (w.nonzeroEntries - 1 + 1) w.entries
      rw [Nat.sub_add_cancel hpos2, ← hlen2]
      exact window_whole _
  have hfuel : v.entries.length + w.entries.length <
      v.nonzeroEntries + w.nonzeroEntries + 1 := by omega
  rcases shrinkLoop_spec hreduce hstart hfuel 0 with
    ⟨c, result, xs, ys, hloop, hholds, hsum, hexit, hlen⟩
  rw [zero_add] at hsum
  rw [if_neg hempty, subSize, subSize, if_pos hpos1, if_pos hpos2]
  dsimp only [Option.bind_eq_bind, Option.bind_some]
  rw [hloop]
  dsimp only [Option.bind_some]
  rcases hholds with ⟨hx, hy, hsx, hsy⟩
  have hxlen := hx.length
  have hylen := hy.length
  by_cases hone : c.front1 = c.back1
  · have hsingle : xs.length = 1 := by omega
    rcases length_eq_one_iff.mp hsingle with ⟨p, rfl⟩
    rw [if_pos hone, searchSecond_spec hreduce hx.head.1 hy hsy (by omega), hsum]
  rw [if_neg hone]
  by_cases htwo : c.front2 = c.back2
  · have hsingle : ys.length = 1 := by omega
    rcases length_eq_one_iff.mp hsingle with ⟨r, rfl⟩
    rw [if_pos htwo, searchFirst_spec hreduce hy.head.1 hx hsx (by omega), hsum]
  · have hnone : xs.length = 0 ∨ ys.length = 0 := by omega
    rw [if_neg htwo, ← hsum]
    rcases hnone with hzero | hzero
    · rw [length_eq_zero_iff.mp hzero, matchSum_nil_left, add_zero]
    · rw [length_eq_zero_iff.mp hzero, matchSum_nil_right, add_zero]

end OnlyReduceTwo

/-!
# Windows of signed cursors
-/

/-- The elements from the front cursor to the back cursor. -/
def SignedWindow {α : Type} (xs : List α) (front back : Int) (mid : List α) :
    Prop :=
  exists first stop : Nat, front = first ∧ back + 1 = stop ∧
    Window xs first stop mid

section SignedWindows

variable {α : Type} {xs mid rest : List α} {front back : Int} {a : α}

theorem readSigned_of_nat {i : Nat} {front : Int} (h : front = i) :
    readSigned xs front = xs[i]? := by
  rw [h, readSigned, if_pos (Int.natCast_nonneg i), Int.toNat_natCast]

theorem signedWindow_whole (xs : List α) :
    SignedWindow xs 0 ((xs.length : Int) - 1) xs :=
  ⟨0, xs.length, rfl, by omega, window_whole xs⟩

theorem SignedWindow.head (h : SignedWindow xs front back (a :: rest)) :
    readSigned xs front = some a ∧ SignedWindow xs (front + 1) back rest := by
  rcases h with ⟨first, stop, hfront, hback, hwindow⟩
  refine ⟨?_, first + 1, stop, by omega, hback, hwindow.head.2⟩
  rw [readSigned_of_nat hfront]
  exact hwindow.head.1

theorem SignedWindow.last (h : SignedWindow xs front back (rest ++ [a])) :
    readSigned xs back = some a ∧ SignedWindow xs front (back - 1) rest := by
  rcases h with ⟨first, stop, hfront, hback, hwindow⟩
  have hlen := hwindow.length
  rw [length_append, length_singleton] at hlen
  have hstop : stop = stop - 1 + 1 := by omega
  rw [hstop] at hwindow
  have hlast : back = (stop - 1 : Nat) := by omega
  refine ⟨?_, first, stop - 1, hfront, by omega, hwindow.last.2⟩
  rw [readSigned_of_nat hlast]
  exact hwindow.last.1

theorem SignedWindow.keepFront (h : SignedWindow xs front back (a :: rest))
    (moves : Bool) :
    SignedWindow xs (front + boolToSize moves) back (keepFront moves a rest) := by
  cases moves with
  | true => exact h.head.2
  | false =>
    show SignedWindow xs (front + 0) back (a :: rest)
    rw [add_zero]
    exact h

theorem SignedWindow.keepBack (h : SignedWindow xs front back (rest ++ [a]))
    (moves : Bool) :
    SignedWindow xs front (back - boolToSize moves) (keepBack moves rest a) := by
  cases moves with
  | true => exact h.last.2
  | false =>
    show SignedWindow xs front (back - 0) (rest ++ [a])
    rw [sub_zero]
    exact h

theorem SignedWindow.length (h : SignedWindow xs front back mid) :
    front + mid.length = back + 1 := by
  rcases h with ⟨first, stop, hfront, hback, hwindow⟩
  have hlen := hwindow.length
  omega

theorem SignedWindow.ends (h : SignedWindow xs front back mid)
    (hlt : front < back) :
    exists (a b : α) (rest : List α), mid = a :: (rest ++ [b]) := by
  rcases h with ⟨first, stop, hfront, hback, hwindow⟩
  have hstop : stop = stop - 1 + 1 := by omega
  rw [hstop] at hwindow
  exact hwindow.ends (by omega)

end SignedWindows

/-!
# The loops with both reducers
-/

section BothReducers

variable {ι R : Type} [LinearOrder ι] [AddCommMonoid R]
  {reduceTwo : R -> R -> R -> R} {reduceOne : R -> R -> R}
  {two : R -> R -> R} {one : R -> R}
  (htwo : forall acc a b, reduceTwo acc a b = acc + two a b)
  (hone : forall acc a, reduceOne acc a = acc + one a)
  (hleft : forall a, two a 0 = one a) (hright : forall b, two 0 b = one b)
  {v w : SparseDatapointView ι R}

omit [AddCommMonoid R] in
theorem readSigned_entries {v : SparseDatapointView ι R} {i : Int} {p : ι × R}
    (h : readSigned v.entries i = some p) :
    readSigned v.indices i = some p.1 ∧ readSigned v.values i = some p.2 := by
  unfold readSigned at h ⊢
  split at h
  · rename_i hnonneg
    rw [if_pos hnonneg, if_pos hnonneg]
    exact ⟨SparseDatapointView.indices_of_entries h,
      SparseDatapointView.values_of_entries h⟩
  · cases h

def SignedCursors.Holds (c : SignedCursors) (v w : SparseDatapointView ι R)
    (xs ys : List (ι × R)) : Prop :=
  SignedWindow v.entries c.front1 c.back1 xs ∧
    SignedWindow w.entries c.front2 c.back2 ys ∧ Sorted xs ∧ Sorted ys

include htwo hleft hright

variable {xs : List (ι × R)}

theorem maskedLoop_spec {fuel : Nat} {c : SignedCursors} {ys : List (ι × R)}
    (h : c.Holds v w xs ys) (hfuel : xs.length + ys.length < fuel)
    (result0 result1 : R) :
    exists (c' : SignedCursors) (result0' result1' : R) (xs' ys' : List (ι × R)),
      maskedLoop reduceTwo v w fuel c result0 result1 =
        some (c', result0', result1') ∧
      c'.Holds v w xs' ys' ∧
      result0' + result1' + unionSum two one xs' ys' =
        result0 + result1 + unionSum two one xs ys ∧
      xs'.length + ys'.length ≤ xs.length + ys.length := by
  induction fuel generalizing c xs ys result0 result1 with
  | zero => exact absurd hfuel (not_lt_zero _)
  | succ fuel ih =>
    rw [maskedLoop]
    by_cases hopen : c.front1 < c.back1 ∧ c.front2 < c.back2
    · rcases h with ⟨hx, hy, hsx, hsy⟩
      rcases hx.ends hopen.1 with ⟨p, q, xs, rfl⟩
      rcases hy.ends hopen.2 with ⟨r, s, ys, rfl⟩
      have hx' : SignedWindow v.entries c.front1 c.back1 ((p :: xs) ++ [q]) := hx
      have hy' : SignedWindow w.entries c.front2 c.back2 ((r :: ys) ++ [s]) := hy
      have hp := readSigned_entries hx.head.1
      have hr := readSigned_entries hy.head.1
      have hq := readSigned_entries hx'.last.1
      have hs := readSigned_entries hy'.last.1
      have hfx := hx.keepFront (decide (p.1 ≤ r.1))
      have hfy := hy.keepFront (decide (p.1 ≥ r.1))
      rw [keepFront_append] at hfx hfy
      have hfront := meets_front hsx hsy
      rcases turn_sorted hsx hsy with ⟨hback, hsx', hsy'⟩
      have hlt := hback.length_lt
      have hholds : SignedCursors.Holds
          { front1 := c.front1 + boolToSize (decide (p.1 ≤ r.1))
            front2 := c.front2 + boolToSize (decide (p.1 ≥ r.1))
            back1 := c.back1 - boolToSize (decide (q.1 ≥ s.1))
            back2 := c.back2 - boolToSize (decide (q.1 ≤ s.1)) } v w
          (keepBack (decide (q.1 ≥ s.1)) (keepFront (decide (p.1 ≤ r.1)) p xs) q)
          (keepBack (decide (q.1 ≤ s.1))
            (keepFront (decide (p.1 ≥ r.1)) r ys) s) :=
        ⟨hfx.keepBack _, hfy.keepBack _, hsx', hsy'⟩
      rcases ih hholds (by omega)
        (result0 + two (masked (decide (p.1 ≤ r.1)) p.2)
          (masked (decide (p.1 ≥ r.1)) r.2))
        (result1 + two (masked (decide (q.1 ≥ s.1)) q.2)
          (masked (decide (q.1 ≤ s.1)) s.2)) with
        ⟨c', result0', result1', xs', ys', hloop, hholds', hsum, hlen⟩
      refine ⟨c', result0', result1', xs', ys', ?_, hholds', ?_, by omega⟩
      · rw [if_pos hopen, hp.1, hp.2, hr.1, hr.2, hq.1, hq.2, hs.1, hs.2]
        dsimp only [Option.bind_eq_bind, Option.bind_some]
        rw [htwo, htwo]
        exact hloop
      · rw [hsum, hfront.unionSum hleft hright, keepFront_append,
          keepFront_append, hback.unionSum_back hleft hright]
        simp only [add_assoc, add_left_comm]
    · rw [if_neg hopen]
      exact ⟨c, result0, result1, xs, ys, rfl, h, rfl, le_refl _⟩

include hone in
theorem mergeLoop_spec {fuel : Nat} {c : SignedCursors} {ys : List (ι × R)}
    (h : c.Holds v w xs ys) (hfuel : xs.length + ys.length < fuel)
    (result : R) :
    exists (c' : SignedCursors) (result' : R) (xs' ys' : List (ι × R)),
      mergeLoop reduceTwo reduceOne v w fuel c result = some (c', result') ∧
      c'.Holds v w xs' ys' ∧
      result' + unionSum two one xs' ys' = result + unionSum two one xs ys ∧
      (xs' = [] ∨ ys' = []) ∧
      xs'.length + ys'.length ≤ xs.length + ys.length := by
  induction fuel generalizing c xs ys result with
  | zero => exact absurd hfuel (not_lt_zero _)
  | succ fuel ih =>
    rw [mergeLoop]
    rcases h with ⟨hx, hy, hsx, hsy⟩
    have hxlen := hx.length
    have hylen := hy.length
    cases xs with
    | nil =>
      rw [length_nil] at hxlen
      rw [if_neg (by omega)]
      exact ⟨c, result, [], ys, rfl, ⟨hx, hy, hsx, hsy⟩, rfl, Or.inl rfl,
        le_refl _⟩
    | cons p xs =>
      cases ys with
      | nil =>
        rw [length_nil] at hylen
        rw [if_neg (by omega)]
        exact ⟨c, result, p :: xs, [], rfl, ⟨hx, hy, hsx, hsy⟩, rfl,
          Or.inr rfl, le_refl _⟩
      | cons r ys =>
        have hp := readSigned_entries hx.head.1
        have hr := readSigned_entries hy.head.1
        have hfront := meets_front hsx hsy
        have hnext : SignedCursors.Holds
            { c with front1 := c.front1 + boolToSize (decide (p.1 ≤ r.1))
                     front2 := c.front2 + boolToSize (decide (p.1 ≥ r.1)) }
            v w (keepFront (decide (p.1 ≤ r.1)) p xs)
            (keepFront (decide (p.1 ≥ r.1)) r ys) :=
          ⟨hx.keepFront _, hy.keepFront _, hsx.sublist (keepFront_sublist _ _ _),
            hsy.sublist (keepFront_sublist _ _ _)⟩
        have hlen1 := length_keepFront (decide (p.1 ≤ r.1)) p xs
        have hlen2 := length_keepFront (decide (p.1 ≥ r.1)) r ys
        have hmoves := hfront.moves
        simp only [length_cons] at hxlen hylen hfuel ⊢
        rcases ih hnext (by omega) (result +
          two (masked (decide (p.1 ≤ r.1)) p.2) (masked (decide (p.1 ≥ r.1)) r.2)) with
          ⟨c', result', xs', ys', hloop, hholds, hsum, hend, hlen⟩
        refine ⟨c', result', xs', ys', ?_, hholds, ?_, hend, by omega⟩
        · rw [if_pos (by omega), hp.1, hr.1, ← hloop]
          dsimp only [Option.bind_eq_bind, Option.bind_some]
          rcases lt_trichotomy p.1 r.1 with hlt | heq | hgt
          · rw [if_neg hlt.ne, if_pos hlt, hp.2, decide_eq_true hlt.le,
              decide_eq_false (not_le.mpr hlt)]
            dsimp only [Option.bind_some, masked]
            rw [hone, ← hleft]
            simp [boolToSize]
          · rw [if_pos heq, hp.2, hr.2, decide_eq_true heq.le,
              decide_eq_true heq.ge]
            dsimp only [Option.bind_some]
            rw [htwo]
            rfl
          · rw [if_neg hgt.ne', if_neg hgt.not_gt, hr.2, decide_eq_true hgt.le,
              decide_eq_false (not_le.mpr hgt)]
            dsimp only [Option.bind_some, masked]
            rw [hone, ← hright]
            simp [boolToSize]
        · rw [hsum, hfront.unionSum hleft hright, add_assoc]

/-- The terms of the entries that are left in one array. -/
def restSum (one : R -> R) (xs : List (ι × R)) : R :=
  (xs.map fun p => one p.2).sum

omit htwo hleft hright in
theorem unionSum_nil_right (xs : List (ι × R)) :
    unionSum two one xs [] = restSum one xs := by
  have halone : aloneSum one xs [] = restSum one xs := by
    rw [aloneSum, restSum]
    congr 1
  rw [unionSum, matchSum_nil_right, halone, zero_add]
  exact add_zero _

omit htwo hleft hright in
theorem unionSum_nil_left (ys : List (ι × R)) :
    unionSum two one [] ys = restSum one ys := by
  have halone : aloneSum one ys [] = restSum one ys := by
    rw [aloneSum, restSum]
    congr 1
  rw [unionSum, matchSum_nil_left, halone, zero_add]
  exact zero_add _

omit htwo hleft hright in
include hone in
theorem restLoop_spec {fuel : Nat} {front back : Int}
    (h : SignedWindow v.entries front back xs) (hfuel : xs.length < fuel)
    (result : R) :
    restLoop reduceOne v.values fuel front back result =
      some (result + restSum one xs) := by
  induction fuel generalizing front xs result with
  | zero => exact absurd hfuel (not_lt_zero _)
  | succ fuel ih =>
    rw [restLoop]
    have hlen := h.length
    cases xs with
    | nil =>
      rw [length_nil] at hlen
      rw [if_neg (by omega), restSum, map_nil, sum_nil, add_zero]
    | cons p xs =>
      rw [length_cons] at hlen hfuel
      rw [if_pos (by omega), (readSigned_entries h.head.1).2]
      dsimp only [Option.bind_eq_bind, Option.bind_some]
      have hcons : restSum one (p :: xs) = one p.2 + restSum one xs :=
        sum_cons
      rw [ih h.head.2 (by omega), hone, hcons, add_assoc]

include hone in
theorem sparseDistanceMeasure_eq_unionSum :
    sparseDistanceMeasure reduceTwo reduceOne v w =
      some (unionSum two one v.entries w.entries) := by
  have hlen1 := v.length_entries
  have hlen2 := w.length_entries
  have hstart : SignedCursors.Holds
      ⟨0, 0, (v.nonzeroEntries : Int) - 1, (w.nonzeroEntries : Int) - 1⟩ v w
      v.entries w.entries := by
    refine ⟨?_, ?_, v.sorted_entries, w.sorted_entries⟩
    · rw [← hlen1]
      exact signedWindow_whole _
    · rw [← hlen2]
      exact signedWindow_whole _
  have hfuel : v.entries.length + w.entries.length <
      v.nonzeroEntries + w.nonzeroEntries + 1 := by omega
  rcases maskedLoop_spec htwo hleft hright hstart hfuel 0 0 with
    ⟨c, result0, result1, xs, ys, hloop, hholds, hsum, hlen⟩
  rcases mergeLoop_spec htwo hone hleft hright hholds (lt_of_le_of_lt hlen hfuel) result0
    with ⟨c', result0', xs', ys', hmerge, hholds', hsum', hend, hlen'⟩
  have htotal : result0' + unionSum two one xs' ys' + result1 =
      unionSum two one v.entries w.entries := by
    rw [hsum', add_right_comm, hsum, zero_add, zero_add]
  rw [sparseDistanceMeasure]
  dsimp only [Option.bind_eq_bind]
  rw [hloop]
  dsimp only [Option.bind_some]
  rw [hmerge]
  dsimp only [Option.bind_some]
  rcases hholds' with ⟨hx, hy, _, _⟩
  have hxlen := hx.length
  split
  · have hnil : xs' = [] := length_eq_zero_iff.mp (by omega)
    rw [hnil, unionSum_nil_left] at htotal
    rw [restLoop_spec hone hy (by omega)]
    dsimp only [Option.bind_some]
    rw [htotal]
  · have hnil : ys' = [] := by
      rcases hend with hnil | hnil
      · rw [hnil, length_nil] at hxlen
        omega
      · exact hnil
    rw [hnil, unionSum_nil_right] at htotal
    rw [restLoop_spec hone hx (by omega)]
    dsimp only [Option.bind_some]
    rw [htotal]

end BothReducers

/-!
# Sums over sets of indices
-/

namespace SparseDatapointView

variable {ι value : Type} [LinearOrder ι] (v : SparseDatapointView ι value)

/-- The indices of the nonzero entries. -/
def support : Finset ι :=
  v.indices.toFinset

def entry [Zero value] (i : ι) : value :=
  match v.entries.find? fun p => decide (p.1 = i) with
  | some p => p.2
  | none => 0

variable {v}

theorem nodup_indices : v.indices.Nodup :=
  v.increasing.imp fun h => h.ne

theorem entry_of_mem [Zero value] {p : ι × value} (h : p ∈ v.entries) :
    v.entry p.1 = p.2 := by
  have hsome : (v.entries.find? fun q => decide (q.1 = p.1)).isSome = true :=
    find?_isSome.mpr ⟨p, h, decide_eq_true rfl⟩
  rcases Option.isSome_iff_exists.mp hsome with ⟨q, hq⟩
  have hsame : q = p := by
    have hmem := mem_of_find?_eq_some hq
    have htest := find?_some hq
    have hkey : q.1 = p.1 := of_decide_eq_true htest
    have hnodup : (v.entries.map Prod.fst).Nodup := by
      rw [v.map_fst_entries]
      exact nodup_indices
    exact inj_on_of_nodup_map hnodup hmem h hkey
  rw [entry, hq, hsame]

theorem sum_entries [Zero value] {R : Type} [AddCommMonoid R]
    (f : ι -> value -> R) :
    (v.entries.map fun p => f p.1 p.2).sum =
      ∑ i ∈ v.support, f i (v.entry i) := by
  have hterms : (v.entries.map fun p => f p.1 p.2) =
      v.indices.map fun i => f i (v.entry i) := by
    rw [← v.map_fst_entries, map_map]
    apply map_congr_left
    intro p hp
    show f p.1 p.2 = f p.1 (v.entry p.1)
    rw [entry_of_mem hp]
  rw [hterms, support, sum_toFinset _ nodup_indices]

theorem mem_support_iff {i : ι} :
    i ∈ v.support <-> i ∈ v.entries.map Prod.fst := by
  rw [support, mem_toFinset, v.map_fst_entries]

end SparseDatapointView

section Definitions

variable {ι : Type} [LinearOrder ι]

open SparseDatapointView

theorem matchSum_eq_sum {T U R : Type} [Zero T] [Zero U] [AddCommMonoid R]
    (term : T -> U -> R) (v : SparseDatapointView ι T)
    (w : SparseDatapointView ι U) :
    matchSum term v.entries w.entries =
      ∑ i ∈ v.support ∩ w.support, term (v.entry i) (w.entry i) := by
  have hrow : forall (i : ι) (a : T), rowSum term (i, a) w.entries =
      if i ∈ w.support then term a (w.entry i) else 0 := by
    intro i a
    rw [rowSum, sum_entries fun j b => if i = j then term a b else 0,
      Finset.sum_ite_eq]
  rw [matchSum, sum_entries fun i a => rowSum term (i, a) w.entries]
  simp only [hrow]
  rw [Finset.sum_ite_mem]

theorem unionSum_eq_sum {R : Type} [AddCommMonoid R] {two : R -> R -> R}
    {one : R -> R} (hleft : forall a, two a 0 = one a)
    (hright : forall b, two 0 b = one b) (v w : SparseDatapointView ι R) :
    unionSum two one v.entries w.entries =
      ∑ i ∈ v.support ∪ w.support, two (v.entry i) (w.entry i) := by
  have halone : forall v w : SparseDatapointView ι R,
      aloneSum one v.entries w.entries =
        ∑ i ∈ v.support \ w.support, one (v.entry i) := by
    intro v w
    rw [aloneSum, sum_entries fun i a =>
      if i ∈ w.entries.map Prod.fst then 0 else one a]
    simp only [← mem_support_iff]
    rw [Finset.sdiff_eq_filter, Finset.sum_filter]
    apply Finset.sum_congr rfl
    intro i _
    by_cases hmem : i ∈ w.support
    · rw [if_pos hmem, if_neg (not_not.mpr hmem)]
    · rw [if_neg hmem, if_pos hmem]
  have hzero : forall (v : SparseDatapointView ι R) (i : ι), i ∉ v.support ->
      v.entry i = 0 := by
    intro v i hmem
    have hnone : (v.entries.find? fun p => decide (p.1 = i)) = none := by
      rw [find?_eq_none]
      intro p hp heq
      exact hmem (mem_support_iff.mpr
        (mem_map.mpr ⟨p, hp, of_decide_eq_true heq⟩))
    rw [entry, hnone]
  have hfirst : ∑ i ∈ v.support \ w.support, one (v.entry i) =
      ∑ i ∈ v.support \ w.support, two (v.entry i) (w.entry i) := by
    apply Finset.sum_congr rfl
    intro i hi
    rw [hzero w i (Finset.mem_sdiff.mp hi).2, hleft]
  have hlast : ∑ i ∈ w.support \ v.support, one (w.entry i) =
      ∑ i ∈ w.support \ v.support, two (v.entry i) (w.entry i) := by
    apply Finset.sum_congr rfl
    intro i hi
    rw [hzero v i (Finset.mem_sdiff.mp hi).2, hright]
  have hsplit : v.support ∪ w.support = (v.support ∩ w.support) ∪
        ((v.support \ w.support) ∪ (w.support \ v.support)) := by
    ext i
    simp only [Finset.mem_union, Finset.mem_inter, Finset.mem_sdiff]
    tauto
  rw [unionSum, matchSum_eq_sum, halone, halone, hfirst, hlast, hsplit,
    Finset.sum_union, Finset.sum_union]
  · exact Finset.disjoint_left.mpr fun i hi hj =>
      (Finset.mem_sdiff.mp hj).2 (Finset.mem_sdiff.mp hi).1
  · refine Finset.disjoint_left.mpr fun i hi hj => ?_
    rcases Finset.mem_union.mp hj with hj | hj
    · exact (Finset.mem_sdiff.mp hj).2 (Finset.mem_inter.mp hi).2
    · exact (Finset.mem_sdiff.mp hj).2 (Finset.mem_inter.mp hi).1

/--
The kernels read only entries of the arrays, come to an end, and give the sum
of the products over the common indices and the sum of the squared differences
over all indices.
-/
theorem sparse_kernels_exact {R : Type} [CommRing R]
    (v w : SparseDatapointView ι R) :
    sparseDistanceMeasureOnlyReduceTwo dotProductReduceTwo v w =
        some (∑ i ∈ v.support ∩ w.support, v.entry i * w.entry i) ∧
      sparseDistanceMeasure squaredL2ReduceTwo squaredL2ReduceOne v w =
        some (∑ i ∈ v.support ∪ w.support, (v.entry i - w.entry i) ^ 2) := by
  constructor
  · have hdot : forall acc a b : R,
        dotProductReduceTwo acc a b = acc + a * b := fun _ _ _ => rfl
    rw [onlyReduceTwo_eq_matchSum hdot, matchSum_eq_sum]
  have hleft : forall a : R, (a - 0) * (a - 0) = a * a := fun a => by
    rw [sub_zero]
  have hright : forall b : R, (0 - b) * (0 - b) = b * b := fun b => by
    rw [zero_sub, neg_mul_neg]
  have htwo : forall acc a b : R,
      squaredL2ReduceTwo acc a b = acc + (a - b) * (a - b) :=
    fun _ _ _ => rfl
  have hone : forall acc a : R, squaredL2ReduceOne acc a = acc + a * a :=
    fun _ _ => rfl
  rw [sparseDistanceMeasure_eq_unionSum htwo hone hleft hright,
    unionSum_eq_sum hleft hright]
  simp only [pow_two]

/-- Two views with one common index. -/
example :
    let v : SparseDatapointView Nat Int := ⟨[1, 4], [2, 3], rfl, by decide⟩
    let w : SparseDatapointView Nat Int := ⟨[4, 6], [5, 7], rfl, by decide⟩
    sparseDistanceMeasureOnlyReduceTwo dotProductReduceTwo v w = some 15 ∧
      sparseDistanceMeasure squaredL2ReduceTwo squaredL2ReduceOne v w =
        some 57 := by
  decide +kernel

end Definitions
end Vector
end OpenViking
