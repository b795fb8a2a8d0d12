import OpenViking.Access.Guards

/-!
# Shortened components

What a shortened component keeps of the component it stands for, and which
shortened components could be user ids.
-/

namespace OpenViking
namespace Access

open Paths Segments List

/-!
# Byte lengths
-/

@[simp] theorem utf8Length_cons (c : Char) (s : Str) :
    utf8Length (c :: s) = c.utf8Size + utf8Length s := rfl

@[simp] theorem utf8Length_append (s t : Str) :
    utf8Length (s ++ t) = utf8Length s + utf8Length t := by
  simp [utf8Length]

@[simp] theorem utf8Length_reverse (s : Str) :
    utf8Length s.reverse = utf8Length s := by
  simp [utf8Length, sum_reverse]

theorem utf8Length_le (s : Str) : utf8Length s ≤ 4 * s.length := by
  induction s with
  | nil => exact Nat.le_refl _
  | cons c s ih =>
    have hc := c.utf8Size_le_four
    rw [utf8Length_cons, length_cons]
    omega

variable {s : Str}

theorem utf8Length_hex (h : forall c, c ∈ s -> c ∈ hexChars) :
    utf8Length s = s.length := by
  induction s with
  | nil => rfl
  | cons c s ih =>
    have hall : (hexChars.all fun d => d.utf8Size == 1) = true := by decide
    have hone : forall d, d ∈ hexChars -> d.utf8Size = 1 :=
      fun d hd => eq_of_beq (all_eq_true.mp hall d hd)
    rw [utf8Length_cons, length_cons, hone c (h c (by simp)),
      ih (fun d hd => h d (by simp [hd]))]
    omega

/-!
# What shortening keeps
-/

theorem trimReversed_spec (target : Nat) (s : Str) :
    exists dropped, s = dropped ++ trimReversed target s ∧
      utf8Length (trimReversed target s) ≤ target ∧
      (target < utf8Length s -> target < utf8Length (trimReversed target s) + 4) := by
  induction s with
  | nil => exact ⟨[], rfl, Nat.zero_le _, fun h => absurd h (Nat.not_lt_zero _)⟩
  | cons c s ih =>
    rcases ih with ⟨dropped, heq, hle, hgt⟩
    have hc := c.utf8Size_le_four
    rw [trimReversed]
    split
    · rename_i hlong
      refine ⟨c :: dropped, by rw [cons_append, ← heq], hle, fun _ => ?_⟩
      by_cases hs : target < utf8Length s
      · exact hgt hs
      · have hself : trimReversed target s = s := by
          cases s with
          | nil => rfl
          | cons d s => rw [trimReversed, if_neg hs]
        rw [hself]
        rw [utf8Length_cons] at hlong
        omega
    · rename_i hshort
      exact ⟨[], rfl, Nat.le_of_not_lt hshort, fun h => absurd h hshort⟩

variable (digest : Digest)

/-- The path component of a URI component. -/
abbrev stored (component : Str) : Str :=
  shortenComponent digest component maxFilenameBytes

variable {c : Str}

theorem stored_short {digest : Digest} (h : utf8Length c ≤ 255) :
    stored digest c = c :=
  if_pos h

theorem stored_long (h : 255 < utf8Length c) :
    exists kept lost, c = kept ++ lost ∧ lost ≠ [] ∧
      stored digest c = kept ++ '_' :: digest.hex c ∧
      utf8Length kept ≤ 246 ∧ 242 < utf8Length kept := by
  have hhex : utf8Length (digest.hex c) = 8 := by
    rw [utf8Length_hex (digest.hex_chars c), digest.length_hex]
  have htarget : maxFilenameBytes - utf8Length ('_' :: digest.hex c) = 246 := by
    rw [utf8Length_cons, hhex]
    rfl
  rcases trimReversed_spec 246 c.reverse with ⟨dropped, heq, hle, hgt⟩
  rw [utf8Length_reverse] at hgt
  refine ⟨(trimReversed 246 c.reverse).reverse, dropped.reverse, ?_, ?_, ?_, ?_, ?_⟩
  · have := congrArg reverse heq
    rwa [reverse_reverse, reverse_append] at this
  · intro hnil
    rw [reverse_eq_nil_iff.1 hnil, nil_append] at heq
    rw [← heq, utf8Length_reverse] at hle
    omega
  · unfold stored shortenComponent
    dsimp only
    have hnot : ¬ utf8Length c ≤ maxFilenameBytes := Nat.not_le.2 h
    rw [if_neg hnot, htarget]
  · rw [utf8Length_reverse]
    exact hle
  · rw [utf8Length_reverse]
    have := hgt (by omega)
    omega

theorem utf8Length_stored_long (h : 255 < utf8Length c) :
    251 < utf8Length (stored digest c) ∧ utf8Length (stored digest c) ≤ 255 := by
  rcases stored_long digest h with ⟨kept, lost, _, _, heq, hle, hgt⟩
  have hhex : utf8Length (digest.hex c) = 8 := by
    rw [utf8Length_hex (digest.hex_chars c), digest.length_hex]
  have hone : Char.utf8Size '_' = 1 := by decide
  rw [heq, utf8Length_append, utf8Length_cons, hhex, hone]
  omega

theorem utf8Length_stored_le (c : Str) : utf8Length (stored digest c) ≤ 255 := by
  by_cases h : utf8Length c ≤ 255
  · rw [stored_short h]
    exact h
  · exact (utf8Length_stored_long digest (Nat.lt_of_not_le h)).2

theorem stored_eq_iff {digest : Digest} {w : Str} (hw : utf8Length w ≤ 251) :
    stored digest c = w <-> c = w := by
  by_cases h : utf8Length c ≤ 255
  · rw [stored_short h]
  have hlong := utf8Length_stored_long digest (Nat.lt_of_not_le h)
  constructor
  · intro heq
    rw [heq] at hlong
    omega
  · intro heq
    rw [heq] at h
    omega

theorem stored_piece (h : IsPiece '/' c) : IsPiece '/' (stored digest c) := by
  by_cases hlen : utf8Length c ≤ 255
  · rw [stored_short hlen]
    exact h
  rcases stored_long digest (Nat.lt_of_not_le hlen) with
    ⟨kept, lost, hc, _, heq, _, _⟩
  rw [heq]
  refine ⟨by simp, ?_⟩
  intro hmem
  rcases mem_append.1 hmem with hmem | hmem
  · exact h.2 (by rw [hc]; simp [hmem])
  · rcases mem_cons.1 hmem with hmem | hmem
    · exact absurd hmem (by decide)
    · exact absurd (digest.hex_chars c _ hmem) (by decide)

/-!
# User ids
-/

/-- A text that the identifier rules accept as a user id. -/
def IsUserId (s : Str) : Prop :=
  validateUserId s = none

instance (s : Str) : Decidable (IsUserId s) :=
  inferInstanceAs (Decidable (_ = _))

theorem isUserId_iff :
    IsUserId s <-> s ≠ [] ∧ s ≠ ".".toList ∧ s ≠ "..".toList ∧
      matchesPattern s = true ∧ s.count '@' ≤ 1 := by
  unfold IsUserId validateUserId validateIdentifierPart
  split
  · rename_i h
    simp [h]
  rename_i hne
  split
  · rename_i h
    simp only [reduceCtorEq, false_iff]
    intro hall
    rcases h with h | h
    · exact hall.2.1 h
    · exact hall.2.2.1 h
  · rename_i hdots
    split
    · rename_i h
      simp [h]
    rename_i h
    split
    · rename_i hcount
      simp only [reduceCtorEq, false_iff]
      intro hall
      exact Nat.not_le.2 hcount hall.2.2.2.2
    · rename_i hcount
      refine ⟨fun _ => ?_, fun _ => rfl⟩
      exact ⟨hne, fun heq => hdots (Or.inl heq),
        fun heq => hdots (Or.inr heq), by simpa using h,
        Nat.le_of_not_lt hcount⟩

theorem IsUserId.chars (h : IsUserId s) :
    forall c, c ∈ s.dropLast -> isIdentifierChar c = true := by
  have hmatch := (isUserId_iff.1 h).2.2.2.1
  unfold matchesPattern identifierBody at hmatch
  intro c hc
  split at hmatch
  · simp only [Bool.and_eq_true, all_eq_true] at hmatch
    exact hmatch.2 c hc
  · simp only [Bool.and_eq_true, all_eq_true] at hmatch
    exact hmatch.2 c (dropLast_subset _ hc)

theorem IsUserId.char_or_newline (h : IsUserId s) :
    forall c, c ∈ s -> isIdentifierChar c = true ∨ c = '\n' := by
  have hmatch := (isUserId_iff.1 h).2.2.2.1
  intro c hc
  have hlast := dropLast_append_getLast (isUserId_iff.1 h).1
  rw [← hlast, mem_append] at hc
  rcases hc with hc | hc
  · exact .inl (h.chars c hc)
  have hlc : c = s.getLast (isUserId_iff.1 h).1 := by simpa using hc
  unfold matchesPattern identifierBody at hmatch
  split at hmatch
  · rename_i hnew
    rw [getLast?_eq_getLast_of_ne_nil (isUserId_iff.1 h).1] at hnew
    exact .inr (hlc.trans (by simpa using hnew))
  · simp only [Bool.and_eq_true, all_eq_true] at hmatch
    refine .inl (hmatch.2 c ?_)
    rw [hlc]
    exact getLast_mem _

theorem IsUserId.not_mark (h : IsUserId s) : '?' ∉ s := by
  intro hmem
  rcases h.char_or_newline '?' hmem with hc | hc
  · exact absurd hc (by decide)
  · exact absurd hc (by decide)

theorem isUserId_of_chars (hchars : forall c, c ∈ s -> isIdentifierChar c = true)
    (hlong : 2 < s.length) (hcount : s.count '@' ≤ 1) : IsUserId s := by
  have hne : s ≠ [] := by
    intro h
    rw [h] at hlong
    exact absurd hlong (by decide)
  refine isUserId_iff.2 ⟨hne, ?_, ?_, ?_, hcount⟩
  · intro h
    rw [h] at hlong
    exact absurd hlong (by decide)
  · intro h
    rw [h] at hlong
    exact absurd hlong (by decide)
  · have hbody : identifierBody s = s := by
      unfold identifierBody
      split
      · rename_i hlast
        have hmem := mem_of_getLast? hlast
        exact absurd (hchars _ hmem) (by decide)
      · rfl
    unfold matchesPattern
    rw [hbody]
    simp only [Bool.and_eq_true, all_eq_true]
    exact ⟨by simpa using hne, hchars⟩

private theorem hex_identifier {c : Char} (h : c ∈ hexChars) :
    isIdentifierChar c = true ∧ c ≠ '@' := by
  have hall : (hexChars.all fun d => isIdentifierChar d && d != '@') = true := by
    decide
  have hboth := (Bool.and_eq_true _ _).mp (all_eq_true.mp hall c h)
  exact ⟨hboth.left, bne_iff_ne.mp hboth.right⟩

theorem isUserId_hashed {s kept lost : Str} (h : IsUserId s)
    (hs : s = kept ++ lost) (hnew : '\n' ∉ kept) :
    IsUserId (kept ++ '_' :: digest.hex c) := by
  have hhex := digest.length_hex c
  apply isUserId_of_chars
  · intro d hd
    rcases mem_append.1 hd with hd | hd
    · have hmem : d ∈ s := by rw [hs]; simp [hd]
      rcases h.char_or_newline d hmem with hd' | hd'
      · exact hd'
      · exact absurd (hd' ▸ hd) hnew
    · rcases mem_cons.1 hd with hd | hd
      · rw [hd]
        decide
      · exact (hex_identifier (digest.hex_chars c d hd)).1
  · rw [length_append, length_cons]
    omega
  · have hle : kept.count '@' ≤ 1 := by
      have hcount := (isUserId_iff.1 h).2.2.2.2
      rw [hs, count_append] at hcount
      omega
    have hzero : ('_' :: digest.hex c).count '@' = 0 := by
      refine count_eq_zero.2 (fun hmem => ?_)
      rcases mem_cons.1 hmem with hmem | hmem
      · exact absurd hmem (by decide)
      · exact (hex_identifier (digest.hex_chars c _ hmem)).2 rfl
    rw [count_append, hzero]
    omega

theorem IsUserId.newline_last {s front back : Str} (h : IsUserId s)
    (hs : s = front ++ '\n' :: back) : back = [] := by
  by_contra hback
  have hmem : '\n' ∈ s.dropLast := by
    rw [hs, dropLast_append_of_ne_nil (by simp),
      dropLast_cons_of_ne_nil hback]
    simp
  exact absurd (h.chars _ hmem) (by decide)

end Access
end OpenViking
