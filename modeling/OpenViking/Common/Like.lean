import OpenViking.Common.Path

/-!
# LIKE patterns

In a pattern `%` stands for any sequence of characters and `_` for any one
character.  Every other character stands for itself, in lower or upper case
when it is an ASCII letter.
-/

namespace OpenViking
namespace Like

open Paths

/-- ASCII letters are compared without their case. -/
def sameLetter (a b : Char) : Bool :=
  a.toLower == b.toLower

variable {c : Char}

private theorem toLower_of_upper (h : c.isUpper = true) :
    c.toLower.isLower = true := by
  delta Char.isUpper at h
  have hval : 65 ≤ c.val.toNat ∧ c.val.toNat ≤ 90 := by
    simpa [UInt32.le_iff_toNat_le] using h
  delta Char.toLower Char.isLower
  rw [dif_pos (by simpa using h)]
  have hnat : c.toNat = c.val.toNat := rfl
  simp [UInt32.le_iff_toNat_le, UInt32.toNat_add]
  omega

private theorem toLower_of_not_upper (h : c.isUpper = false) : c.toLower = c := by
  delta Char.isUpper at h
  delta Char.toLower
  exact dif_neg (of_decide_eq_false h)

theorem sameLetter_iff_eq (h : c.isAlpha = false) (d : Char) :
    sameLetter c d = true <-> d = c := by
  have hparts : c.isUpper = false ∧ c.isLower = false := by
    delta Char.isAlpha at h
    simpa using h
  rw [sameLetter, beq_iff_eq, toLower_of_not_upper hparts.1]
  constructor
  · intro heq
    cases hd : d.isUpper with
    | false => rw [heq, toLower_of_not_upper hd]
    | true =>
      have hlower := toLower_of_upper hd
      rw [← heq, hparts.2] at hlower
      cases hlower
  · intro heq
    rw [heq, toLower_of_not_upper hparts.1]

def like : Str -> Str -> Bool
  | [], s => s.isEmpty
  | '%' :: pattern, s => s.tails.any fun t => like pattern t
  | _ :: _, [] => false
  | c :: pattern, d :: s => (c == '_' || sameLetter c d) && like pattern s

theorem like_percent_cons (pattern s : Str) :
    like ('%' :: pattern) s = true <->
      exists a b : Str, s = a ++ b ∧ like pattern b = true := by
  rw [like, List.any_eq_true]
  constructor
  · intro h
    rcases h with ⟨t, ht, hlike⟩
    rcases (List.mem_tails _ _).mp ht with ⟨a, ha⟩
    exact ⟨a, t, ha.symm, hlike⟩
  · intro h
    rcases h with ⟨a, b, hs, hlike⟩
    exact ⟨b, (List.mem_tails _ _).mpr ⟨a, hs.symm⟩, hlike⟩

theorem like_cons (hc : c ≠ '%') (pattern s : Str) :
    like (c :: pattern) s = true <->
      exists (d : Char) (t : Str), s = d :: t ∧
        (c = '_' ∨ sameLetter c d = true) ∧ like pattern t = true := by
  cases s with
  | nil => simp [like]
  | cons d t => simp [like]

/-- Two patterns one after the other match two texts one after the other. -/
theorem like_append (p q s : Str) :
    like (p ++ q) s = true <->
      exists a b : Str, s = a ++ b ∧ like p a = true ∧ like q b = true := by
  induction p generalizing s with
  | nil => simp [like]
  | cons c p ih =>
    by_cases hc : c = '%'
    · subst hc
      rw [List.cons_append, like_percent_cons]
      constructor
      · intro h
        rcases h with ⟨a, b, hs, hlike⟩
        rcases (ih b).mp hlike with ⟨x, y, hb, hx, hy⟩
        refine ⟨a ++ x, y, by rw [hs, hb, List.append_assoc], ?_, hy⟩
        exact (like_percent_cons _ _).mpr ⟨a, x, rfl, hx⟩
      · intro h
        rcases h with ⟨a, b, hs, ha, hb⟩
        rcases (like_percent_cons _ _).mp ha with ⟨x, y, hxy, hy⟩
        refine ⟨x, y ++ b, by rw [hs, hxy, List.append_assoc], ?_⟩
        exact (ih _).mpr ⟨y, b, rfl, hy, hb⟩
    · rw [List.cons_append, like_cons hc]
      constructor
      · intro h
        rcases h with ⟨d, t, hs, hd, hlike⟩
        rcases (ih t).mp hlike with ⟨x, y, ht, hx, hy⟩
        refine ⟨d :: x, y, by rw [hs, ht, List.cons_append], ?_, hy⟩
        exact (like_cons hc _ _).mpr ⟨d, x, rfl, hd, hx⟩
      · intro h
        rcases h with ⟨a, b, hs, ha, hb⟩
        rcases (like_cons hc _ _).mp ha with ⟨d, t, hdt, hd, ht⟩
        refine ⟨d, t ++ b, by rw [hs, hdt, List.cons_append], hd, ?_⟩
        exact (ih _).mpr ⟨t, b, rfl, ht, hb⟩

theorem like_self (s : Str) : like s s = true := by
  induction s with
  | nil => rfl
  | cons c s ih =>
    by_cases hc : c = '%'
    · subst hc
      exact (like_percent_cons _ _).mpr ⟨['%'], s, rfl, ih⟩
    · have hself : sameLetter c c = true := beq_self_eq_true _
      exact (like_cons hc _ _).mpr ⟨c, s, rfl, Or.inr hself, ih⟩

end Like
end OpenViking
