import Mathlib.Data.List.Induction
import Mathlib.Data.List.Sort

/-!
# Maps in the order of insertion

A new key goes to the end; a key that is set again stays where it is.  The items
carry their keys, and an item is combined with the one that is there.
-/

namespace OpenViking
namespace OrderedMap

open List

variable {item key : Type} [DecidableEq key] (keyOf : item -> key)
  (combine : item -> item -> item)

def update (s : item) : List item -> List item
  | [] => [s]
  | l :: rest =>
    if keyOf l = keyOf s then combine l s :: rest else l :: update s rest

def updateAll (m items : List item) : List item :=
  items.foldl (fun m s => update keyOf combine s m) m

/-- The items whose keys are not in the map. -/
def fresh (m items : List item) : List item :=
  items.filter fun s => keyOf s ∉ m.map keyOf

/-- An item with all the items of its key. -/
def absorb (items : List item) (l : item) : item :=
  (items.filter fun s => keyOf s = keyOf l).foldl combine l

variable {keyOf} {combine} {m items : List item} {s : item}

theorem mem_fresh :
    s ∈ fresh keyOf m items <-> s ∈ items ∧ keyOf s ∉ m.map keyOf := by
  simp [fresh]

theorem filter_fresh {k : key} (h : k ∉ m.map keyOf) :
    ((fresh keyOf m items).filter fun s => keyOf s = k) =
      items.filter fun s => keyOf s = k := by
  rw [fresh, filter_filter]
  apply filter_congr
  intro s _
  by_cases hs : keyOf s = k
  · simpa [hs] using h
  · simp [hs]

theorem update_of_notMem (h : keyOf s ∉ m.map keyOf) :
    update keyOf combine s m = m ++ [s] := by
  induction m with
  | nil => rfl
  | cons l rest ih =>
    rw [map_cons, mem_cons, not_or] at h
    rw [update, if_neg (Ne.symm h.1), ih h.2, cons_append]

theorem update_of_mem (hm : (m.map keyOf).Nodup) (h : keyOf s ∈ m.map keyOf) :
    update keyOf combine s m =
      m.map fun l => if keyOf l = keyOf s then combine l s else l := by
  induction m with
  | nil => cases h
  | cons l rest ih =>
    rw [map_cons, nodup_cons] at hm
    rw [update, map_cons]
    by_cases hl : keyOf l = keyOf s
    · have hrest : forall r, r ∈ rest -> keyOf r ≠ keyOf s := fun r hr heq =>
        hm.1 (hl.trans heq.symm ▸ mem_map_of_mem hr)
      rw [if_pos hl, if_pos hl]
      congr 1
      exact (map_id _).symm.trans
        (map_congr_left fun r hr => (if_neg (hrest r hr)).symm)
    · rw [if_neg hl, if_neg hl, ih hm.2]
      exact (mem_cons.mp h).resolve_left (Ne.symm hl)

theorem mem_update {j : item} (hm : (m.map keyOf).Nodup)
    (h : j ∈ update keyOf combine s m) :
    (j ∈ m ∧ keyOf j ≠ keyOf s) ∨
      (exists l, l ∈ m ∧ keyOf l = keyOf s ∧ j = combine l s) ∨
        (keyOf s ∉ m.map keyOf ∧ j = s) := by
  by_cases hs : keyOf s ∈ m.map keyOf
  · rw [update_of_mem hm hs, mem_map] at h
    rcases h with ⟨l, hl, rfl⟩
    by_cases hk : keyOf l = keyOf s
    · exact .inr (Or.inl ⟨l, hl, hk, if_pos hk⟩)
    · rw [if_neg hk]
      exact .inl ⟨hl, hk⟩
  · rw [update_of_notMem hs, mem_append, mem_singleton] at h
    rcases h with h | h
    · exact .inl ⟨h, fun hk => hs (hk ▸ mem_map_of_mem h)⟩
    · exact .inr (Or.inr ⟨hs, h⟩)

theorem updateAll_concat :
    updateAll keyOf combine m (items ++ [s]) =
      update keyOf combine s (updateAll keyOf combine m items) := by
  rw [updateAll, updateAll, foldl_concat]

variable (hkey : forall l s, keyOf l = keyOf s -> keyOf (combine l s) = keyOf l)

include hkey

section

variable (hm : (m.map keyOf).Nodup)

include hm

theorem keys_update : (update keyOf combine s m).map keyOf =
      if keyOf s ∈ m.map keyOf then m.map keyOf
      else m.map keyOf ++ [keyOf s] := by
  split
  · rename_i h
    rw [update_of_mem hm h, map_map]
    apply map_congr_left
    intro l _
    rw [Function.comp_apply]
    split
    · rename_i hl
      exact hkey l s hl
    · rfl
  · rename_i h
    rw [update_of_notMem h, map_append, map_singleton]

theorem nodup_update : ((update keyOf combine s m).map keyOf).Nodup := by
  rw [keys_update hkey hm]
  split
  · exact hm
  · rename_i h
    exact nodup_append_comm.mp (nodup_cons.mpr ⟨h, hm⟩)

theorem nodup_updateAll : ((updateAll keyOf combine m items).map keyOf).Nodup := by
  induction items generalizing m with
  | nil => exact hm
  | cons s rest ih => exact ih (nodup_update hkey hm)

theorem mem_keys_updateAll {k : key} :
    k ∈ (updateAll keyOf combine m items).map keyOf <->
      k ∈ m.map keyOf ∨ k ∈ items.map keyOf := by
  induction items generalizing m with
  | nil => simp [updateAll]
  | cons s rest ih =>
    refine (ih (nodup_update hkey hm)).trans ?_
    rw [keys_update hkey hm, map_cons, mem_cons]
    split
    · rename_i h
      have heq : k = keyOf s -> k ∈ m.map keyOf := fun heq => heq ▸ h
      tauto
    · rw [mem_append, mem_singleton, or_assoc]

end

omit hkey in
theorem updateAll_nil (hitems : (items.map keyOf).Nodup) :
    updateAll keyOf combine [] items = items := by
  induction items using reverseRecOn with
  | nil => rfl
  | append_singleton items s ih =>
    rw [map_append, nodup_append] at hitems
    rw [updateAll_concat, ih hitems.1, update_of_notMem]
    exact fun h => hitems.2.2 _ h _ mem_cons_self rfl

/-- A field that comes from the item that was there is the one of the map. -/
theorem updateAll_first {value : Type} (f : item -> value)
    (hf : forall l s, f (combine l s) = f l) (hm : (m.map keyOf).Nodup)
    {j l : item} (hj : j ∈ updateAll keyOf combine m items) (hl : l ∈ m)
    (hk : keyOf l = keyOf j) : f j = f l := by
  induction items using reverseRecOn generalizing j with
  | nil => rw [inj_on_of_nodup_map hm hl hj hk]
  | append_singleton items s ih =>
    rw [updateAll_concat] at hj
    rcases mem_update (nodup_updateAll hkey hm) hj with
      ⟨hj, _⟩ | ⟨l', hl', hks, rfl⟩ | ⟨hs, rfl⟩
    · exact ih hj hk
    · rw [hf, ih hl' (hk.trans (hkey l' s hks))]
    · exact absurd ((mem_keys_updateAll hkey hm).mpr
        (Or.inl (hk ▸ mem_map_of_mem hl))) hs

/-- A field that comes from the item that is set is the one of the last item. -/
theorem updateAll_last {value : Type} (f : item -> value)
    (hf : forall l s, f (combine l s) = f s) (hm : (m.map keyOf).Nodup)
    {j t : item} (hj : j ∈ updateAll keyOf combine m items)
    (ht : (items.filter fun s => keyOf s = keyOf j).getLast? = some t) :
    f j = f t := by
  induction items using reverseRecOn generalizing j with
  | nil => cases ht
  | append_singleton items s ih =>
    rw [updateAll_concat] at hj
    have hlast : keyOf s = keyOf j -> t = s := by
      intro hs
      simpa [filter_append, hs] using ht.symm
    rcases mem_update (nodup_updateAll hkey hm) hj with
      ⟨hj, hks⟩ | ⟨l, _, hks, rfl⟩ | ⟨_, rfl⟩
    · apply ih hj
      simpa [filter_append, Ne.symm hks] using ht
    · rw [hf, hlast ((hkey l s hks).trans hks).symm]
    · rw [hlast rfl]

/-! ## Updating again -/

omit hkey in
theorem update_append {n : List item} :
    update keyOf combine s (m ++ n) =
      if keyOf s ∈ m.map keyOf then update keyOf combine s m ++ n
      else m ++ update keyOf combine s n := by
  induction m with
  | nil => rfl
  | cons l rest ih =>
    by_cases hl : keyOf l = keyOf s
    · simp [update, hl]
    · simp only [cons_append, update, if_neg hl, ih, map_cons,
        mem_cons, Ne.symm hl, false_or]
      split <;> rfl

theorem updateAll_append {n : List item} (hm : ((m ++ n).map keyOf).Nodup) :
    updateAll keyOf combine (m ++ n) items =
      m.map (absorb keyOf combine items) ++
        updateAll keyOf combine n (fresh keyOf m items) := by
  induction items generalizing m n with
  | nil => exact congrArg (· ++ n) (map_id m).symm
  | cons s rest ih =>
    have hnext := nodup_update hkey (s := s) hm
    have hleft := (map_append ▸ hm).of_append_left
    rw [updateAll, foldl_cons]
    rw [update_append] at hnext ⊢
    by_cases h : keyOf s ∈ m.map keyOf
    · rw [if_pos h] at hnext ⊢
      refine (ih hnext).trans ?_
      rw [fresh, keys_update hkey hleft, if_pos h, update_of_mem hleft h,
        map_map, fresh, filter_cons_of_neg (by simpa using h)]
      congr 1
      apply map_congr_left
      intro l _
      rw [Function.comp_apply]
      by_cases hl : keyOf l = keyOf s
      · simp [absorb, hl, hkey l s hl]
      · simp [absorb, hl, Ne.symm hl]
    · rw [if_neg h] at hnext ⊢
      refine (ih hnext).trans ?_
      rw [fresh, fresh, filter_cons_of_pos (by simpa using h)]
      congr 1
      apply map_congr_left
      intro l hl
      have hne : keyOf s ≠ keyOf l := fun heq =>
        h (heq ▸ mem_map_of_mem hl)
      simp [absorb, hne]

variable [hassoc : Std.Associative combine] [hidem : Std.IdempotentOp combine]

omit hkey [DecidableEq key] in
theorem foldl_combine_again {l t : item} {rest : List item}
    (h : rest.foldl combine l = l) :
    combine (rest.foldl combine (combine l t)) t = combine l t := by
  cases rest with
  | nil => rw [foldl_nil, hassoc.assoc, hidem.idempotent]
  | cons a rest =>
    have hfold : forall x, (a :: rest).foldl combine x =
        combine x (rest.foldl combine a) := fun x => foldl_assoc
    rw [hfold] at h ⊢
    generalize rest.foldl combine a = p at h ⊢
    calc combine (combine (combine l t) p) t
        = combine (combine (combine (combine l p) t) p) t := by rw [h]
      _ = combine l (combine (combine p t) (combine p t)) := by
          simp only [hassoc.assoc]
      _ = combine l t := by rw [hidem.idempotent, ← hassoc.assoc, h]

/-- What is in the map has taken in the items of its key. -/
theorem absorb_of_mem {j : item} (hm : (m.map keyOf).Nodup)
    (h : j ∈ updateAll keyOf combine m items) :
    absorb keyOf combine items j = j := by
  induction items using reverseRecOn generalizing j with
  | nil => rfl
  | append_singleton items s ih =>
    rw [updateAll_concat] at h
    rcases mem_update (nodup_updateAll hkey hm) h with
      ⟨hj, hks⟩ | ⟨l, hl, hks, rfl⟩ | ⟨hs, rfl⟩
    · have hrest := ih hj
      rw [absorb] at hrest
      simpa [absorb, Ne.symm hks] using hrest
    · have hrest := ih hl
      rw [absorb] at hrest
      simpa [absorb, hkey l s hks, hks] using foldl_combine_again hrest
    · have hnone : items.filter (fun t => keyOf t = keyOf j) = [] := by
        rw [filter_eq_nil_iff]
        intro t ht heq
        exact hs ((mem_keys_updateAll hkey hm).mpr
          (Or.inr (of_decide_eq_true heq ▸ mem_map_of_mem ht)))
      simp [absorb, hnone, hidem.idempotent]

end OrderedMap
end OpenViking
