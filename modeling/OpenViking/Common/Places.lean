import OpenViking.Common.Assoc

/-!
# Places of keys

A map gives every key of a list its place.  A key joins at the end of the
list, and leaves by having the last key put into its place.
-/

namespace OpenViking
namespace Places

open List

variable {α : Type}

/-!
# Removal by moving the last element
-/

/-- The last element takes the place of the removed one. -/
def swapRemove (xs : List α) (i : Nat) : List α :=
  match xs.getLast? with
  | none => xs
  | some x => (xs.set i x).dropLast

variable {xs : List α}

theorem swapRemove_eq (i : Nat) {x : α}
    (h : xs.getLast? = some x) : swapRemove xs i = (xs.set i x).dropLast := by
  rw [swapRemove, h]

theorem length_swapRemove (xs : List α) (i : Nat) :
    (swapRemove xs i).length = xs.length - 1 := by
  rw [swapRemove]
  cases h : xs.getLast? with
  | none =>
    rw [getLast?_eq_none_iff.mp h]
    rfl
  | some x => rw [length_dropLast, length_set]

theorem map_swapRemove {β : Type} (f : α -> β) (xs : List α) (i : Nat) :
    (swapRemove xs i).map f = swapRemove (xs.map f) i := by
  rw [swapRemove, swapRemove, getLast?_map]
  cases xs.getLast? with
  | none => rfl
  | some x =>
    show ((xs.set i x).dropLast).map f = ((xs.map f).set i (f x)).dropLast
    rw [map_dropLast, map_set]

theorem getElem?_swapRemove {i : Nat} (hi : i < xs.length) (n : Nat) :
    (swapRemove xs i)[n]? =
      if xs.length - 1 ≤ n then none
      else if n = i then xs[xs.length - 1]? else xs[n]? := by
  cases h : xs.getLast? with
  | none =>
    rw [getLast?_eq_none_iff.mp h] at hi
    exact absurd hi (Nat.not_lt_zero i)
  | some x =>
    have hlast := h
    rw [getLast?_eq_getElem?] at hlast
    rw [swapRemove_eq i h, getElem?_dropLast, length_set]
    by_cases hn : xs.length - 1 ≤ n
    · rw [if_pos hn, if_neg (by omega)]
    · rw [if_neg hn, if_pos (by omega), getElem?_set, hlast]
      by_cases hin : i = n
      · subst hin
        rw [if_pos rfl, if_pos hi, if_pos rfl]
      · rw [if_neg hin, if_neg (Ne.symm hin)]

theorem swapRemove_last (xs : List α) :
    swapRemove xs (xs.length - 1) = xs.dropLast := by
  apply ext_getElem?
  intro n
  cases xs with
  | nil => rfl
  | cons x rest =>
    rw [getElem?_swapRemove (by simp), getElem?_dropLast]
    by_cases hn : (x :: rest).length - 1 ≤ n
    · rw [if_pos hn, if_neg (by omega)]
    · rw [if_neg hn, if_neg (by omega), if_pos (by omega)]

/-- Only the removed element is gone. -/
theorem mem_swapRemove {i : Nat} (hi : i < xs.length) {y : α}
    (hnodup : xs.Nodup) : y ∈ swapRemove xs i <-> y ∈ xs ∧ y ≠ xs[i] := by
  constructor
  · intro h
    rcases List.getElem?_of_mem h with ⟨n, hn⟩
    rw [getElem?_swapRemove hi] at hn
    split at hn
    next => cases hn
    next hlt =>
      split at hn
      next heq =>
        refine ⟨List.mem_of_getElem? hn, ?_⟩
        intro hyi
        rw [hyi, ← List.getElem?_eq_getElem hi] at hn
        have hsame := (List.getElem?_inj (by omega) hnodup).mp hn
        omega
      next hne =>
        refine ⟨List.mem_of_getElem? hn, ?_⟩
        intro hyi
        rw [hyi, ← List.getElem?_eq_getElem hi] at hn
        exact hne ((List.getElem?_inj (by omega) hnodup).mp hn)
  · intro h
    rcases h with ⟨hmem, hne⟩
    rcases List.getElem?_of_mem hmem with ⟨n, hn⟩
    have hlt := (List.getElem?_eq_some_iff.mp hn).1
    have hni : n ≠ i := by
      intro heq
      subst heq
      rw [List.getElem?_eq_getElem hi] at hn
      exact hne (Option.some.inj hn).symm
    by_cases hlast : n = xs.length - 1
    · apply List.mem_of_getElem? (i := i)
      rw [getElem?_swapRemove hi, if_neg (by omega), if_pos rfl, ← hlast, hn]
    · apply List.mem_of_getElem? (i := n)
      rw [getElem?_swapRemove hi, if_neg (by omega), if_neg hni, hn]

theorem nodup_swapRemove {i : Nat} (hi : i < xs.length)
    (hnodup : xs.Nodup) : (swapRemove xs i).Nodup := by
  rw [nodup_iff_getElem?_ne_getElem?]
  intro a b hab hb
  rw [length_swapRemove] at hb
  rw [getElem?_swapRemove hi a, getElem?_swapRemove hi b,
    if_neg (show ¬ xs.length - 1 ≤ a by omega),
    if_neg (show ¬ xs.length - 1 ≤ b by omega)]
  have hne : forall m n, m < xs.length -> m ≠ n -> xs[m]? ≠ xs[n]? := by
    intro m n hm hmn heq
    exact hmn ((getElem?_inj hm hnodup).mp heq)
  split
  next ha =>
    rw [if_neg (by omega)]
    exact hne _ _ (by omega) (by omega)
  next ha =>
    split
    next => exact hne _ _ (by omega) (by omega)
    next => exact hne _ _ (by omega) (by omega)

/-!
# The map of places
-/

variable {key : Type} [DecidableEq key]

/-- The map sends exactly the keys of the list, each to its place. -/
structure Placed (keys : List key) (m : Assoc key Int) : Prop where
  nodup : keys.Nodup
  find : forall k i, m.find k = some i <->
    exists n : Nat, keys[n]? = some k ∧ i = n

namespace Placed

variable {keys : List key} {m : Assoc key Int}

theorem empty : Placed ([] : List key) ∅ where
  nodup := nodup_nil
  find := by
    intro k i
    simp

theorem place (h : Placed keys m) {n : Nat} {k : key}
    (hn : keys[n]? = some k) : m.find k = some (n : Int) :=
  (h.find k n).mpr ⟨n, hn, rfl⟩

theorem find_none (h : Placed keys m) {k : key} :
    m.find k = none <-> k ∉ keys := by
  constructor
  · intro hnone hmem
    rcases getElem?_of_mem hmem with ⟨n, hn⟩
    rw [h.place hn] at hnone
    cases hnone
  · intro hmem
    cases hfind : m.find k with
    | none => rfl
    | some i =>
      rcases (h.find k i).mp hfind with ⟨n, hn, _⟩
      exact absurd (mem_of_getElem? hn) hmem

theorem push (h : Placed keys m) {k : key} (hk : k ∉ keys) :
    Placed (keys ++ [k]) (m.put k (keys.length : Int)) where
  nodup := by
    rw [List.nodup_append]
    refine ⟨h.nodup, by simp, ?_⟩
    intro a ha b hb heq
    rw [List.mem_singleton.mp hb] at heq
    exact hk (heq ▸ ha)
  find := by
    intro k' i
    rw [Assoc.find_put]
    constructor
    · intro hfind
      split at hfind
      next heq =>
        refine ⟨keys.length, ?_, (Option.some.inj hfind).symm⟩
        rw [List.getElem?_concat_length, heq]
      next hne =>
        rcases (h.find k' i).mp hfind with ⟨n, hn, hin⟩
        refine ⟨n, ?_, hin⟩
        rw [List.getElem?_append_left (List.getElem?_eq_some_iff.mp hn).1, hn]
    · intro hex
      rcases hex with ⟨n, hn, rfl⟩
      by_cases hlt : n < keys.length
      · rw [List.getElem?_append_left hlt] at hn
        have hne : k' ≠ k := by
          intro heq
          exact hk (heq ▸ List.mem_of_getElem? hn)
        rw [if_neg hne]
        exact h.place hn
      · have hlen := (List.getElem?_eq_some_iff.mp hn).1
        rw [List.length_append, List.length_singleton] at hlen
        have hlast : n = keys.length := by omega
        subst hlast
        rw [List.getElem?_concat_length] at hn
        rw [if_pos (Option.some.inj hn).symm]

/-- The map after a removal: the removed key goes, the last one moves. -/
theorem swapRemove (h : Placed keys m) {i : Nat} (hi : i < keys.length)
    {m' : Assoc key Int}
    (hm' : forall k, m'.find k =
      if keys[i]? = some k then none
      else if keys[keys.length - 1]? = some k then some (i : Int)
      else m.find k) : Placed (swapRemove keys i) m' where
  nodup := nodup_swapRemove hi h.nodup
  find := by
    intro k j
    have hinj : forall m n, m < keys.length -> keys[m]? = keys[n]? -> m = n :=
      fun m n hm heq => (List.getElem?_inj hm h.nodup).mp heq
    rw [hm']
    constructor
    · intro hfind
      split at hfind
      next => cases hfind
      next hik =>
        split at hfind
        next hlast =>
          have hne : keys.length - 1 ≠ i := by
            intro heq
            rw [heq] at hlast
            exact hik hlast
          refine ⟨i, ?_, (Option.some.inj hfind).symm⟩
          rw [getElem?_swapRemove hi, if_neg (by omega), if_pos rfl, hlast]
        next hlast =>
          rcases (h.find k j).mp hfind with ⟨n, hn, hjn⟩
          have hlt := (List.getElem?_eq_some_iff.mp hn).1
          have hn1 : n ≠ keys.length - 1 := by
            intro heq
            rw [heq] at hn
            exact hlast hn
          have hni : n ≠ i := by
            intro heq
            rw [heq] at hn
            exact hik hn
          refine ⟨n, ?_, hjn⟩
          rw [getElem?_swapRemove hi, if_neg (by omega), if_neg hni, hn]
    · intro hex
      rcases hex with ⟨n, hn, rfl⟩
      rw [getElem?_swapRemove hi] at hn
      split at hn
      next => cases hn
      next hlt =>
        split at hn
        next heq =>
          have hik : keys[i]? ≠ some k := by
            intro hik
            have := hinj i (keys.length - 1) hi (hik.trans hn.symm)
            omega
          rw [if_neg hik, if_pos hn, heq]
        next hne =>
          have hik : keys[i]? ≠ some k := by
            intro hik
            exact hne (hinj i n hi (hik.trans hn.symm)).symm
          have hlast : keys[keys.length - 1]? ≠ some k := by
            intro hlast
            have := hinj (keys.length - 1) n (by omega) (hlast.trans hn.symm)
            omega
          rw [if_neg hik, if_neg hlast]
          exact h.place hn

end Placed
end Places
end OpenViking
