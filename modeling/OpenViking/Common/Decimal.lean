import OpenViking.Common.Path
import Mathlib.Tactic.IntervalCases

/-!
# Decimal keys

Tables that are ordered by text hold numbers in decimal.  Two numbers with the
same number of digits are ordered as texts the way they are ordered as
numbers.
-/

namespace OpenViking

open Paths List Nat

/-- `str(n)` of a natural number. -/
def decimal (n : Nat) : Str :=
  Nat.toDigits 10 n

variable {m n : Nat}

theorem decimal_injective (h : decimal m = decimal n) : m = n := by
  have hback := congrArg (fun cs => ofDigitChars 10 cs 0) h
  simpa only [decimal, ofDigitChars_ten_toDigits] using hback

private theorem decimal_of_lt (h : n < 10) : decimal n = [digitChar n] :=
  toDigits_of_lt_base h

private theorem decimal_of_le (h : 10 ≤ n) :
    decimal n = decimal (n / 10) ++ [digitChar (n % 10)] :=
  toDigits_of_base_le (by decide) h

private theorem digitChar_lt_iff (hm : m < 10) (hn : n < 10) :
    digitChar m < digitChar n <-> m < n := by
  interval_cases m <;> interval_cases n <;> decide

private theorem snoc_lt_snoc_iff {xs ys : Str} {c d : Char}
    (hlen : xs.length = ys.length) :
    xs ++ [c] < ys ++ [d] <-> xs < ys ∨ (xs = ys ∧ c < d) := by
  induction xs generalizing ys with
  | nil =>
    cases length_eq_zero_iff.mp hlen.symm
    simp [cons_lt_cons_iff]
  | cons x xs ih =>
    cases ys with
    | nil => cases hlen
    | cons y ys =>
      have hrest := ih (succ.inj hlen)
      simp only [cons_append, cons_lt_cons_iff, hrest, cons.injEq]
      constructor
      · intro h
        rcases h with hlt | ⟨heq, hlt | ⟨hxs, hcd⟩⟩
        · exact .inl (.inl hlt)
        · exact .inl (.inr ⟨heq, hlt⟩)
        · exact .inr ⟨⟨heq, hxs⟩, hcd⟩
      · intro h
        rcases h with (hlt | ⟨heq, hlt⟩) | ⟨⟨heq, hxs⟩, hcd⟩
        · exact .inl hlt
        · exact .inr ⟨heq, .inl hlt⟩
        · exact .inr ⟨heq, .inr ⟨hxs, hcd⟩⟩

private theorem length_decimal_pos (n : Nat) : 0 < (decimal n).length :=
  length_pos_iff.mpr toDigits_ne_nil

theorem decimal_lt_iff (hlen : (decimal m).length = (decimal n).length) :
    decimal m < decimal n <-> m < n := by
  induction m using Nat.strong_induction_on generalizing n with
  | h m ih =>
    rcases Nat.lt_or_ge m 10 with hm | hm
    · rcases Nat.lt_or_ge n 10 with hn | hn
      · rw [decimal_of_lt hm, decimal_of_lt hn, cons_lt_cons_iff,
          digitChar_lt_iff hm hn]
        simp
      · rw [decimal_of_lt hm, decimal_of_le hn, length_append] at hlen
        have hpos := length_decimal_pos (n / 10)
        simp only [length_cons, length_nil] at hlen
        omega
    · rcases Nat.lt_or_ge n 10 with hn | hn
      · rw [decimal_of_le hm, decimal_of_lt hn, length_append] at hlen
        have hpos := length_decimal_pos (m / 10)
        simp only [length_cons, length_nil] at hlen
        omega
      rw [decimal_of_le hm, decimal_of_le hn, length_append,
        length_append] at hlen
      have hlen' : (decimal (m / 10)).length =
          (decimal (n / 10)).length := Nat.add_right_cancel hlen
      rw [decimal_of_le hm, decimal_of_le hn, snoc_lt_snoc_iff hlen',
        ih (m / 10) (by omega) hlen',
        digitChar_lt_iff (Nat.mod_lt _ (by decide)) (Nat.mod_lt _ (by decide))]
      constructor
      · intro h
        rcases h with hlt | ⟨heq, hlt⟩
        · omega
        · have hdiv := decimal_injective heq
          omega
      · intro h
        rcases Nat.lt_or_ge (m / 10) (n / 10) with hlt | hge
        · exact .inl hlt
        · have hdiv : m / 10 = n / 10 := by omega
          exact .inr ⟨congrArg decimal hdiv, by omega⟩

theorem length_decimal {k : Nat} (hlow : 10 ^ k ≤ n)
    (hhigh : n < 10 ^ (k + 1)) : (decimal n).length = k + 1 := by
  induction k generalizing n with
  | zero =>
    rw [decimal_of_lt hhigh]
    rfl
  | succ k ih =>
    have hten : 10 ≤ n := by
      have hpow : 10 ^ 1 ≤ 10 ^ (k + 1) :=
        Nat.pow_le_pow_right (by decide) (by omega)
      omega
    have hlow' : 10 ^ k ≤ n / 10 := by
      rw [Nat.le_div_iff_mul_le (by decide)]
      rwa [Nat.pow_succ] at hlow
    have hhigh' : n / 10 < 10 ^ (k + 1) := by
      rw [Nat.div_lt_iff_lt_mul (by decide)]
      rwa [Nat.pow_succ] at hhigh
    rw [decimal_of_le hten, length_append, ih hlow' hhigh']
    rfl

/-- A nanosecond count as clocks show it: nineteen digits. -/
def Nanos (n : Nat) : Prop :=
  10 ^ 18 ≤ n ∧ n < 10 ^ 19

theorem Nanos.decimal_lt_iff (hm : Nanos m) (hn : Nanos n) :
    decimal m < decimal n <-> m < n := by
  apply OpenViking.decimal_lt_iff
  rw [length_decimal hm.1 hm.2, length_decimal hn.1 hn.2]

end OpenViking
