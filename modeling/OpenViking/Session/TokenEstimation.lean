import OpenViking.Common.Bisection
import OpenViking.Common.Text
import Mathlib.Algebra.Order.BigOperators.Group.List
import Mathlib.Algebra.Order.Group.Nat

/-!
# Estimating the tokens of a text

Every character has a weight, and a text takes as many tokens as its weights add
up to, rounded up.  Weights are counted in quarters of a token.
-/

namespace OpenViking
namespace Session

open Text Bisection

def isCjkCodePoint (codePoint : Nat) : Bool :=
  (0x3400 ≤ codePoint && codePoint ≤ 0x4DBF) ||
  (0x4E00 ≤ codePoint && codePoint ≤ 0x9FFF) ||
  (0xF900 ≤ codePoint && codePoint ≤ 0xFAFF) ||
  (0x20000 ≤ codePoint && codePoint ≤ 0x2EBEF) ||
  (0x3040 ≤ codePoint && codePoint ≤ 0x30FF) ||
  (0x31F0 ≤ codePoint && codePoint ≤ 0x31FF) ||
  (0xAC00 ≤ codePoint && codePoint ≤ 0xD7AF) ||
  (0x1100 ≤ codePoint && codePoint ≤ 0x11FF) ||
  (0x3130 ≤ codePoint && codePoint ≤ 0x318F) ||
  (0xFF00 ≤ codePoint && codePoint ≤ 0xFFEF) ||
  (0x3000 ≤ codePoint && codePoint ≤ 0x303F)

/-- The weight of a character, in quarters of a token. -/
def codePointWeight (codePoint : Nat) : Nat :=
  if isCjkCodePoint codePoint then 6 else if codePoint > 0xFFFF then 8 else 1

variable (text : Text)

def weight : Nat :=
  (text.map fun c => codePointWeight c.toNat).sum

def ceilTokens (quarters : Nat) : Nat :=
  (quarters + 3) / 4

def estimateTextTokens : Nat :=
  ceilTokens (weight text)

/-- The longest front part within a budget, found by halving. -/
def prefixLength (value : Text) (budget : Nat) : Nat :=
  lastPassing (fun mid => estimateTextTokens (value.take mid) ≤ budget) value.length 0
    value.length

def truncationMarker : Text := ['\n', '…', '\n']

/-- Keeps the head and the tail of a text, three parts to one, around a marker. -/
def truncateTextToTokenBudget (maxTokens : Nat) : Text :=
  if text = [] ∨ estimateTextTokens text ≤ maxTokens then text
  else if maxTokens = 0 then []
  else
    let marker :=
      if estimateTextTokens truncationMarker ≥ maxTokens then [] else truncationMarker
    let contentTokens := maxTokens - estimateTextTokens marker
    let headTokens := contentTokens * 3 / 4
    let tailTokens := contentTokens - headTokens
    let headEnd := prefixLength text headTokens
    let remaining := text.drop headEnd
    let tailLength := prefixLength remaining.reverse tailTokens
    let tail := remaining.drop (remaining.length - tailLength)
    rstrip (text.take headEnd) ++ marker ++ lstrip tail

theorem codePointWeight_pos (codePoint : Nat) : 0 < codePointWeight codePoint := by
  unfold codePointWeight
  split
  · decide
  · split
    · decide
    · decide

@[simp] theorem weight_nil : weight [] = 0 :=
  rfl

@[simp] theorem weight_append (a b : Text) : weight (a ++ b) = weight a + weight b := by
  rw [weight, List.map_append, List.sum_append]
  rfl

theorem weight_pos {text : Text} (h : text ≠ []) : 0 < weight text := by
  cases text with
  | nil => exact absurd rfl h
  | cons c rest =>
    have hc := codePointWeight_pos c.toNat
    rw [weight, List.map_cons, List.sum_cons]
    omega

theorem weight_reverse : weight text.reverse = weight text := by
  rw [weight, List.map_reverse, List.sum_reverse]
  rfl

theorem weight_prefix_le {a b : Text} (h : a <+: b) : weight a ≤ weight b := by
  rcases h with ⟨rest, rfl⟩
  rw [weight_append]
  exact Nat.le_add_right _ _

theorem weight_suffix_le {a b : Text} (h : a <:+ b) : weight a ≤ weight b := by
  rcases h with ⟨rest, rfl⟩
  rw [weight_append]
  exact Nat.le_add_left _ _

theorem ceilTokens_le {quarters budget : Nat} :
    ceilTokens quarters ≤ budget <-> quarters ≤ 4 * budget := by
  unfold ceilTokens
  omega

theorem estimateTextTokens_le {text : Text} {budget : Nat} :
    estimateTextTokens text ≤ budget <-> weight text ≤ 4 * budget :=
  ceilTokens_le

theorem ceilTokens_mono {a b : Nat} (h : a ≤ b) : ceilTokens a ≤ ceilTokens b := by
  unfold ceilTokens
  omega

theorem ceilTokens_add_le {a b tokens : Nat} (h : b ≤ 4 * tokens) :
    ceilTokens (a + b) ≤ ceilTokens a + tokens := by
  unfold ceilTokens
  omega

theorem weight_take_prefixLength (value : Text) (budget : Nat) :
    weight (value.take (prefixLength value budget)) ≤ 4 * budget := by
  let passes : Nat -> Bool := fun mid => estimateTextTokens (value.take mid) ≤ budget
  have hzero : passes 0 = true :=
    decide_eq_true (estimateTextTokens_le.mpr (Nat.zero_le (4 * budget)))
  have hpasses := lastPassing_passes value.length value.length hzero
  exact estimateTextTokens_le.mp (of_decide_eq_true hpasses)

theorem weight_tail (remaining : Text) (budget : Nat) :
    weight (remaining.drop
      (remaining.length - prefixLength remaining.reverse budget)) ≤ 4 * budget := by
  have hreverse : (remaining.reverse.take
      (prefixLength remaining.reverse budget)).reverse =
      remaining.drop (remaining.length - prefixLength remaining.reverse budget) := by
    rw [List.take_reverse, List.reverse_reverse]
  rw [← hreverse, weight_reverse]
  exact weight_take_prefixLength remaining.reverse budget

theorem weight_truncate_le (maxTokens : Nat) :
    weight (truncateTextToTokenBudget text maxTokens) ≤ 4 * maxTokens := by
  unfold truncateTextToTokenBudget
  split
  · next h =>
      rcases h with hnil | hfits
      · rw [hnil]
        exact Nat.zero_le _
      · exact estimateTextTokens_le.mp hfits
  · split
    · exact Nat.zero_le _
    · next hpos =>
        dsimp only
        generalize hmarker : (if estimateTextTokens truncationMarker ≥ maxTokens then []
          else truncationMarker) = marker
        have hmarker : estimateTextTokens marker ≤ maxTokens := by
          rw [← hmarker]
          split
          · exact Nat.zero_le _
          · next hless => exact Nat.le_of_lt (Nat.lt_of_not_le hless)
        have hweight : weight marker ≤ 4 * estimateTextTokens marker :=
          estimateTextTokens_le.mp (Nat.le_refl _)
        generalize estimateTextTokens marker = markerTokens at hmarker hweight ⊢
        have hhead := Nat.le_trans
          (weight_prefix_le (rstrip_front (text.take
            (prefixLength text ((maxTokens - markerTokens) * 3 / 4)))))
          (weight_take_prefixLength text _)
        generalize text.drop
          (prefixLength text ((maxTokens - markerTokens) * 3 / 4)) = remaining
        have htail := Nat.le_trans
          (weight_suffix_le (lstrip_suffix (remaining.drop (remaining.length -
            prefixLength remaining.reverse (maxTokens - markerTokens -
              (maxTokens - markerTokens) * 3 / 4)))))
          (weight_tail remaining _)
        rw [weight_append, weight_append]
        omega

theorem truncate_zero : truncateTextToTokenBudget text 0 = [] := by
  unfold truncateTextToTokenBudget
  split
  · next h =>
      rcases h with hnil | hfits
      · exact hnil
      · by_contra hne
        have hpos := weight_pos hne
        have hle := estimateTextTokens_le.mp hfits
        omega
  · rfl

end Session
end OpenViking
