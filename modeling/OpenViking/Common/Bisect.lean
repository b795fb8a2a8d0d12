import Mathlib.Order.Basic
import Mathlib.Data.List.Basic
import Mathlib.Data.List.Pairwise

/-!
# Binary search

A three-way binary search over the places of a list, and the first place of a
sorted list that satisfies a test.  Both are described by the one place where a
test stops to hold.
-/

namespace OpenViking

/-- A place below `n` splits a predicate: it holds before and fails from there
on. -/
structure SplitsAt (n : Nat) (before : Nat -> Prop) (k : Nat) : Prop where
  le : k ≤ n
  below : forall i, i < k -> before i
  above : forall i, k ≤ i -> i < n -> ¬ before i

theorem SplitsAt.lt_iff {n k i : Nat} {before : Nat -> Prop}
    (h : SplitsAt n before k) (hi : i < n) : i < k <-> before i := by
  constructor
  · intro hlt
    exact h.below i hlt
  · intro hbefore
    apply Nat.lt_of_not_le
    intro hle
    exact h.above i hle hi hbefore

/-- Halve the window `l..r`, moving as the probe of its middle says. -/
def bisect (probe : Nat -> Ordering) : Nat -> Nat -> Nat -> Nat
  | 0, l, _ => l
  | fuel + 1, l, r =>
    if l < r then
      let mid := l + (r - l) / 2
      match probe mid with
      | .lt => bisect probe fuel (mid + 1) r
      | .gt => bisect probe fuel l mid
      | .eq => mid
    else
      l

/-- A probe that knows on which side of the split a place is. -/
structure Probes (n : Nat) (before : Nat -> Prop) (probe : Nat -> Ordering) :
    Prop where
  closed : forall i j, i ≤ j -> j < n -> before j -> before i
  lt : forall i, i < n -> probe i = .lt -> before i
  gt : forall i, i < n -> probe i = .gt -> ¬ before i
  eq : forall i, i < n -> probe i = .eq ->
    ¬ before i ∧ forall j, j < i -> before j

theorem bisect_splits {n : Nat} {before : Nat -> Prop}
    {probe : Nat -> Ordering} (h : Probes n before probe) (fuel l r : Nat)
    (hfuel : r - l ≤ fuel) (hlr : l ≤ r) (hr : r ≤ n)
    (hbelow : forall i, i < l -> before i)
    (habove : forall i, r ≤ i -> i < n -> ¬ before i) :
    SplitsAt n before (bisect probe fuel l r) := by
  induction fuel generalizing l r with
  | zero =>
    have heq : l = r := by omega
    rw [bisect]
    exact ⟨by omega, hbelow, by rw [heq]; exact habove⟩
  | succ fuel ih =>
    rw [bisect]
    split
    · rename_i hlt
      have hmid : l + (r - l) / 2 < n := by omega
      show SplitsAt n before (match probe (l + (r - l) / 2) with
        | .lt => bisect probe fuel (l + (r - l) / 2 + 1) r
        | .gt => bisect probe fuel l (l + (r - l) / 2)
        | .eq => l + (r - l) / 2)
      cases hprobe : probe (l + (r - l) / 2) with
      | lt =>
        have hbefore := h.lt _ hmid hprobe
        apply ih _ _ (by omega) (by omega) hr
        · intro i hi
          exact h.closed i _ (by omega) hmid hbefore
        · exact habove
      | gt =>
        have hnot := h.gt _ hmid hprobe
        apply ih _ _ (by omega) (by omega) (by omega) hbelow
        intro i hi hn hbefore
        exact hnot (h.closed _ i hi hn hbefore)
      | eq =>
        rcases h.eq _ hmid hprobe with ⟨hnot, hall⟩
        show SplitsAt n before (l + (r - l) / 2)
        refine ⟨by omega, hall, ?_⟩
        intro i hi hn hbefore
        exact hnot (h.closed _ i hi hn hbefore)
    · have heq : l = r := by omega
      exact ⟨by omega, hbelow, by rw [heq]; exact habove⟩

/-!
# First places of sorted lists
-/

variable {alpha : Type}

theorem findIdx_splits {xs : List alpha} {test : alpha -> Bool}
    (h : xs.Pairwise fun a b => test a = true -> test b = true) :
    SplitsAt xs.length (fun i => forall a, xs[i]? = some a -> test a = false)
      (xs.findIdx test) := by
  refine ⟨List.findIdx_le_length, ?_, ?_⟩
  · intro i hi a ha
    rcases List.getElem?_eq_some_iff.mp ha with ⟨hlt, heq⟩
    rw [← heq]
    exact Bool.eq_false_iff.mpr (by simpa using List.not_of_lt_findIdx hi)
  intro i hle hlt hbefore
  have hfirst : xs.findIdx test < xs.length := Nat.lt_of_le_of_lt hle hlt
  have htrue : test xs[xs.findIdx test] = true := List.findIdx_getElem
  have hat := hbefore xs[i] (List.getElem?_eq_getElem hlt)
  rcases Nat.lt_or_eq_of_le hle with hstrict | heq
  · have hnext := List.pairwise_iff_getElem.mp h _ i hfirst hlt hstrict htrue
    rw [hat] at hnext
    cases hnext
  · have hsame : test xs[i] = true := by
      rw [← htrue]
      congr 1
      exact getElem_congr rfl heq.symm hlt
    rw [hat] at hsame
    cases hsame

end OpenViking
