import Mathlib.Order.Basic
import Mathlib.Order.Nat

/-!
# Searching by halves

Two loops halve an interval of numbers.  One looks for a last number that
passes, the other for the first.  Every step shortens the interval, so as many
steps as it has numbers are enough.
-/

namespace OpenViking
namespace Bisection

/-- Halves the interval until one number is left, and keeps the lower end passing. -/
def lastPassing (passes : Nat -> Bool) : Nat -> Nat -> Nat -> Nat
  | 0, low, _ => low
  | fuel + 1, low, high =>
    if low < high then
      let mid := (low + high + 1) / 2
      if passes mid then lastPassing passes fuel mid high
      else lastPassing passes fuel low (mid - 1)
    else low

/-- Halves the interval until it is empty, and remembers the last number that
passed. -/
def firstPassing (passes : Nat -> Bool) : Nat -> Nat -> Nat -> Option Nat -> Option Nat
  | 0, _, _, found => found
  | fuel + 1, low, high, found =>
    if low ≤ high then
      let candidate := (low + high) / 2
      if passes candidate then
        firstPassing passes fuel low (candidate - 1) (some candidate)
      else firstPassing passes fuel (candidate + 1) high found
    else found

variable {passes : Nat -> Bool}

theorem lastPassing_passes (fuel : Nat) {low : Nat} (high : Nat)
    (h : passes low = true) : passes (lastPassing passes fuel low high) = true := by
  induction fuel generalizing low high with
  | zero => exact h
  | succ fuel ih =>
    rw [lastPassing]
    split
    · dsimp only
      split
      · next hmid => exact ih high hmid
      · exact ih _ h
    · exact h

/-- What the search for the first number answers when all numbers below `low` fail
and the one behind `high` passed. -/
structure IsFirst (passes : Nat -> Bool) (high : Nat) (found result : Option Nat) :
    Prop where
  passed : forall m, result = some m -> passes m = true
  earliest : forall m c, result = some m -> c < m -> passes c = false
  absent : result = none -> found = none ∧ forall c, c ≤ high -> passes c = false

theorem firstPassing_isFirst
    (hup : forall a b, a ≤ b -> passes a = true -> passes b = true) (fuel : Nat)
    {low high : Nat} {found : Option Nat} (hlow : 0 < low)
    (hfuel : high + 1 - low ≤ fuel)
    (hbelow : forall c, c < low -> passes c = false)
    (hfound : forall f, found = some f ->
      passes f = true ∧ forall c, c < f -> c ≤ high ∨ passes c = false) :
    IsFirst passes high found (firstPassing passes fuel low high found) := by
  have hstop {low high : Nat} {found : Option Nat} (hless : ¬ low ≤ high)
      (hbelow : forall c, c < low -> passes c = false)
      (hfound : forall f, found = some f ->
        passes f = true ∧ forall c, c < f -> c ≤ high ∨ passes c = false) :
      IsFirst passes high found found := by
    constructor
    · intro m hm
      exact (hfound m hm).1
    · intro m c hm hc
      rcases (hfound m hm).2 c hc with hle | hfails
      · exact hbelow c (by omega)
      · exact hfails
    · intro hnone
      exact ⟨hnone, fun c hc => hbelow c (by omega)⟩
  induction fuel generalizing low high found with
  | zero => exact hstop (by omega) hbelow hfound
  | succ fuel ih =>
    rw [firstPassing]
    split
    · next hless =>
        dsimp only
        split
        · next hcandidate =>
            have hfirst : IsFirst passes ((low + high) / 2 - 1)
                (some ((low + high) / 2)) _ :=
              ih hlow (by omega) hbelow (by
                intro f hf
                cases hf
                exact ⟨hcandidate, fun c hc => Or.inl (by omega)⟩)
            exact ⟨hfirst.passed, hfirst.earliest,
              fun hnone => absurd (hfirst.absent hnone).1 (by simp)⟩
        · next hcandidate =>
            have hfails : forall c, c < (low + high) / 2 + 1 -> passes c = false := by
              intro c hc
              apply Bool.eq_false_iff.mpr
              intro hpasses
              exact hcandidate (hup c _ (by omega) hpasses)
            exact ih (Nat.succ_pos _) (by omega) hfails hfound
    · next hless => exact hstop hless hbelow hfound

theorem firstPassing_le
    (hup : forall a b, a ≤ b -> passes a = true -> passes b = true)
    {high m : Nat} (hm : m ≤ high) (hpasses : passes m = true)
    (hzero : passes 0 = false) :
    exists first, firstPassing passes high 1 high none = some first ∧ first ≤ m ∧
      passes first = true := by
  have hfirst : IsFirst passes high none (firstPassing passes high 1 high none) := by
    apply firstPassing_isFirst hup high Nat.one_pos (Nat.le_of_eq rfl)
    · intro c hc
      rw [Nat.lt_one_iff.mp hc]
      exact hzero
    · nofun
  cases hresult : firstPassing passes high 1 high none with
  | none =>
    have hfails := (hfirst.absent hresult).2 m hm
    rw [hpasses] at hfails
    cases hfails
  | some first =>
    refine ⟨first, rfl, ?_, hfirst.passed first hresult⟩
    apply Nat.le_of_not_lt
    intro hless
    have hfails := hfirst.earliest first m hresult hless
    rw [hpasses] at hfails
    cases hfails

end Bisection
end OpenViking
