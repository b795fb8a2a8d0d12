import Mathlib.Data.List.Basic
import Mathlib.Data.List.DropRight

/-!
# Segments of a text

A text is cut at a separator and its empty pieces are dropped.  Separators at
the ends of the text then make no difference, and a text that is cut short at a
mark keeps the segments that end before the mark.
-/

namespace OpenViking
namespace Segments

open List

variable {α : Type} [DecidableEq α]

/-- The nonempty pieces between separators. -/
def segments (sep : α) (xs : List α) : List (List α) :=
  (xs.splitOn sep).filter (fun w => decide (w ≠ []))

/-- The text with the separators at its right end removed. -/
def stripRight (sep : α) (xs : List α) : List α :=
  xs.rdropWhile (fun x => decide (x = sep))

/-- The text with the separators at both ends removed. -/
def strip (sep : α) (xs : List α) : List α :=
  stripRight sep (xs.dropWhile (fun x => decide (x = sep)))

/-- The part of the text before the first mark. -/
def cutAt (mark : α) (xs : List α) : List α :=
  xs.takeWhile (fun x => decide (x ≠ mark))

/-!
# Appending at a separator
-/

@[simp] theorem segments_nil (sep : α) : segments sep [] = [] := by
  simp [segments]

theorem segments_append (sep : α) (xs ys : List α) :
    segments sep (xs ++ sep :: ys) = segments sep xs ++ segments sep ys := by
  have hsplit : (xs ++ sep :: ys).splitOn sep
      = xs.splitOn sep ++ ys.splitOn sep :=
    splitOnP_append_cons xs ys (by simp)
  rw [segments, hsplit, filter_append]
  rfl

@[simp] theorem segments_cons (sep : α) (xs : List α) :
    segments sep (sep :: xs) = segments sep xs := by
  simpa using segments_append sep [] xs

variable {sep : α}

variable {xs : List α}

theorem segments_of_not_mem (hsep : sep ∉ xs)
    (hne : xs ≠ []) : segments sep xs = [xs] := by
  have hsplit : xs.splitOn sep = [xs] :=
    splitOnP_eq_singleton (fun x hx => by
      have : x ≠ sep := fun h => hsep (h ▸ hx)
      simpa using this)
  simp [segments, hsplit, hne]

theorem segments_replicate (sep : α) (n : Nat) :
    segments sep (replicate n sep) = [] := by
  induction n with
  | zero => simp
  | succ n ih => rw [replicate_succ, segments_cons, ih]

theorem segments_append_replicate (sep : α) (xs : List α) (n : Nat) :
    segments sep (xs ++ replicate n sep) = segments sep xs := by
  cases n with
  | zero => simp
  | succ n =>
    rw [replicate_succ, segments_append, segments_replicate, append_nil]

/-!
# First and last separators
-/

omit [DecidableEq α] in
theorem exists_last (h : sep ∈ xs) :
    exists as bs, xs = as ++ sep :: bs ∧ sep ∉ bs := by
  rcases eq_append_cons_of_mem (mem_reverse.2 h) with
    ⟨as, bs, hrev, hnot⟩
  refine ⟨bs.reverse, as.reverse, ?_, by simpa using hnot⟩
  have := congrArg reverse hrev
  simpa using this

theorem exists_lastPiece (sep : α) (xs : List α) :
    exists t, sep ∉ t ∧
      (xs = t ∨ exists as, xs = as ++ sep :: t) := by
  by_cases h : sep ∈ xs
  · rcases exists_last h with ⟨as, bs, heq, hnot⟩
    exact ⟨bs, hnot, .inr ⟨as, heq⟩⟩
  · exact ⟨xs, h, .inl rfl⟩

theorem exists_firstPiece (sep : α) (xs : List α) :
    exists t, sep ∉ t ∧
      (xs = t ∨ exists bs, xs = t ++ sep :: bs) := by
  by_cases h : sep ∈ xs
  · rcases eq_append_cons_of_mem h with ⟨as, bs, heq, hnot⟩
    exact ⟨as, hnot, .inr ⟨bs, heq⟩⟩
  · exact ⟨xs, h, .inl rfl⟩

theorem mem_segments {w : List α} (h : w ∈ segments sep xs) :
    w ≠ [] ∧ sep ∉ w ∧ forall x, x ∈ w -> x ∈ xs := by
  induction hn : xs.length using Nat.strong_induction_on generalizing xs with
  | _ n ih =>
    rcases exists_firstPiece sep xs with ⟨t, hnot, heq | ⟨bs, heq⟩⟩
    · subst heq
      by_cases hne : xs = []
      · subst hne
        simp at h
      · rw [segments_of_not_mem hnot hne] at h
        have hw : w = xs := by simpa using h
        subst hw
        exact ⟨hne, hnot, fun x hx => hx⟩
    · rw [heq, segments_append, mem_append] at h
      rcases h with h | h
      · by_cases hne : t = []
        · subst hne
          simp at h
        · rw [segments_of_not_mem hnot hne] at h
          have hw : w = t := by simpa using h
          subst hw
          refine ⟨hne, hnot, fun x hx => ?_⟩
          rw [heq]
          simp [hx]
      · have hlt : bs.length < n := by
          rw [← hn, heq]
          simp
          omega
        rcases ih bs.length hlt h rfl with ⟨hne, hsep, hmem⟩
        refine ⟨hne, hsep, fun x hx => ?_⟩
        rw [heq]
        simp [hmem x hx]

/-!
# Stripping
-/

theorem stripRight_spec (sep : α) (xs : List α) :
    exists n, xs = stripRight sep xs ++ replicate n sep := by
  induction xs using reverseRecOn with
  | nil => exact ⟨0, by simp [stripRight]⟩
  | append_singleton xs x ih =>
    by_cases hx : x = sep
    · rcases ih with ⟨n, hn⟩
      refine ⟨n + 1, ?_⟩
      have hstrip : stripRight sep (xs ++ [x]) = stripRight sep xs :=
        rdropWhile_concat_pos _ _ _ (by simpa using hx)
      rw [hstrip, replicate_succ', ← append_assoc, ← hn, hx]
    · refine ⟨0, ?_⟩
      have hstrip : stripRight sep (xs ++ [x]) = xs ++ [x] :=
        rdropWhile_concat_neg _ _ _ (by simpa using hx)
      rw [hstrip]
      simp

theorem segments_drop_stripRight (sep : α) (k : Nat) (xs : List α) :
    segments sep ((stripRight sep xs).drop k) = segments sep (xs.drop k) := by
  rcases stripRight_spec sep xs with ⟨n, hn⟩
  conv_rhs => rw [hn, drop_append, drop_replicate]
  rw [segments_append_replicate]

theorem segments_stripRight (sep : α) (xs : List α) :
    segments sep (stripRight sep xs) = segments sep xs := by
  simpa using segments_drop_stripRight sep 0 xs

theorem segments_dropWhile (sep : α) (xs : List α) :
    segments sep (xs.dropWhile (fun x => decide (x = sep)))
      = segments sep xs := by
  induction xs with
  | nil => rfl
  | cons x xs ih =>
    by_cases hx : x = sep
    · subst hx
      rw [dropWhile_cons_of_pos (by simp), ih, segments_cons]
    · rw [dropWhile_cons_of_neg (by simpa using hx)]

theorem segments_strip (sep : α) (xs : List α) :
    segments sep (strip sep xs) = segments sep xs := by
  rw [strip, segments_stripRight, segments_dropWhile]

/-!
# Cutting at a mark
-/

theorem cutAt_of_not_mem {mark : α} (h : mark ∉ xs) : cutAt mark xs = xs := by
  refine takeWhile_eq_self_iff.2 (fun x hx => ?_)
  have : x ≠ mark := fun hxm => h (hxm ▸ hx)
  simpa using this

theorem cutAt_append {mark : α} {as : List α} (h : mark ∉ as) (bs : List α) :
    cutAt mark (as ++ mark :: bs) = as := by
  induction as with
  | nil => simp [cutAt]
  | cons a as ih =>
    have hne : a ≠ mark := fun ha => h (by simp [ha])
    have hrest : mark ∉ as := fun hm => h (by simp [hm])
    have htail := ih hrest
    rw [cutAt] at htail ⊢
    rw [cons_append, takeWhile_cons_of_pos (by simpa using hne), htail]

/-- The segments before the mark stay, the one with the mark loses its end. -/
theorem segments_cutAt {sep mark : α} (hne : mark ≠ sep) (h : mark ∈ xs) :
    exists front t rest after,
      segments sep xs = front ++ (t ++ mark :: rest) :: after ∧
      segments sep (cutAt mark xs) = front ++ segments sep t ∧
      sep ∉ t ∧ mark ∉ t ∧ (forall w, w ∈ front -> mark ∉ w) := by
  rcases eq_append_cons_of_mem h with ⟨as, bs, heq, hmark⟩
  rcases exists_lastPiece sep as with ⟨t, ht, has⟩
  rcases exists_firstPiece sep bs with ⟨rest, hrest, hbs⟩
  have hpiece : sep ∉ t ++ mark :: rest := by
    simp [ht, hrest, Ne.symm hne]
  have hone := segments_of_not_mem hpiece (by simp)
  have htail : exists after, segments sep (t ++ mark :: bs)
      = (t ++ mark :: rest) :: after := by
    rcases hbs with hbs | ⟨more, hbs⟩
    · exact ⟨[], by rw [hbs, hone]⟩
    · refine ⟨segments sep more, ?_⟩
      have happ : t ++ mark :: bs = (t ++ mark :: rest) ++ sep :: more := by
        rw [hbs]
        simp
      rw [happ, segments_append, hone]
      rfl
  rcases htail with ⟨after, htail⟩
  have hcut : cutAt mark xs = as := by rw [heq, cutAt_append hmark]
  rcases has with has | ⟨front, has⟩
  · refine ⟨[], t, rest, after, ?_, ?_, ht, ?_, by simp⟩
    · rw [heq, has, htail]
      rfl
    · rw [hcut, has]
      rfl
    · rw [← has]
      exact hmark
  · refine ⟨segments sep front, t, rest, after, ?_, ?_, ht, ?_, ?_⟩
    · have happ : xs = front ++ sep :: (t ++ mark :: bs) := by
        rw [heq, has]
        simp
      rw [happ, segments_append, htail]
    · rw [hcut, has, segments_append]
    · intro hm
      exact hmark (by rw [has]; simp [hm])
    · intro w hw hm
      have hin := (mem_segments hw).2.2 mark hm
      exact hmark (by rw [has]; simp [hin])

/-!
# Rooted paths

Every component of a rooted path follows a separator.  A component is nonempty
and holds no separator, so containment of paths, which programs test on the
text, is containment of the component lists.
-/

def IsPiece (sep : α) (w : List α) : Prop :=
  w ≠ [] ∧ sep ∉ w

def rooted (sep : α) (parts : List (List α)) : List α :=
  parts.flatMap (fun part => sep :: part)

/-- A path is a directory, or is below it. -/
def Inside (sep : α) (dir path : List α) : Prop :=
  dir ++ [sep] <+: path ++ [sep]

instance (sep : α) (dir path : List α) : Decidable (Inside sep dir path) :=
  inferInstanceAs (Decidable (_ <+: _))

omit [DecidableEq α] in
@[simp] theorem rooted_cons (sep : α) (part : List α) (parts : List (List α)) :
    rooted sep (part :: parts) = sep :: (part ++ rooted sep parts) := by
  simp [rooted]

omit [DecidableEq α] in
theorem rooted_append (sep : α) (xs ys : List (List α)) :
    rooted sep (xs ++ ys) = rooted sep xs ++ rooted sep ys := by
  simp [rooted]

omit [DecidableEq α] in
theorem rooted_append_sep (sep : α) (parts : List (List α)) :
    exists tail, rooted sep parts ++ [sep] = sep :: tail := by
  cases parts with
  | nil => exact ⟨[], rfl⟩
  | cons part parts => exact ⟨part ++ rooted sep parts ++ [sep], by simp⟩

theorem segments_rooted_append {parts : List (List α)}
    (hparts : forall w, w ∈ parts -> IsPiece sep w) (tail : List α) :
    segments sep (rooted sep parts ++ sep :: tail)
      = parts ++ segments sep tail := by
  induction parts with
  | nil => simp [rooted]
  | cons part parts ih =>
    have hpart := hparts part (by simp)
    have hrest := ih (fun w hw => hparts w (by simp [hw]))
    have hone := segments_of_not_mem hpart.2 hpart.1
    rw [rooted_cons, cons_append, segments_cons, append_assoc]
    cases hparts' : parts with
    | nil =>
      rw [hparts'] at hrest
      have happ : part ++ (rooted sep [] ++ sep :: tail)
          = part ++ sep :: tail := rfl
      rw [happ, segments_append, hone]
    | cons next more =>
      rw [hparts', rooted_cons, cons_append, segments_cons] at hrest
      rw [rooted_cons, cons_append, segments_append, hone, hrest]
      rfl

theorem segments_rooted {parts : List (List α)}
    (hparts : forall w, w ∈ parts -> IsPiece sep w) :
    segments sep (rooted sep parts) = parts := by
  have h := segments_rooted_append hparts []
  rw [segments_append] at h
  simpa using h

theorem rooted_injective {xs ys : List (List α)}
    (hxs : forall w, w ∈ xs -> IsPiece sep w)
    (hys : forall w, w ∈ ys -> IsPiece sep w)
    (h : rooted sep xs = rooted sep ys) : xs = ys := by
  rw [← segments_rooted hxs, ← segments_rooted hys, h]

theorem inside_rooted_iff {dir path : List (List α)}
    (hdir : forall w, w ∈ dir -> IsPiece sep w)
    (hpath : forall w, w ∈ path -> IsPiece sep w) :
    Inside sep (rooted sep dir) (rooted sep path) <-> dir <+: path := by
  constructor
  · intro h
    rcases h with ⟨tail, htail⟩
    have hsegments := congrArg (segments sep) htail
    rw [append_assoc] at hsegments
    have hleft := segments_rooted_append hdir tail
    have hright := segments_rooted_append hpath []
    rw [singleton_append, hleft, hright, segments_nil,
      append_nil] at hsegments
    exact ⟨segments sep tail, hsegments⟩
  · intro h
    rcases h with ⟨rest, hrest⟩
    rcases rooted_append_sep sep rest with ⟨tail, htail⟩
    refine ⟨tail, ?_⟩
    rw [← hrest, rooted_append, append_assoc, append_assoc, htail]
    rfl

end Segments
end OpenViking
