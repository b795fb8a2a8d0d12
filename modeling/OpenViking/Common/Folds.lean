import Mathlib.Data.List.Basic
import Mathlib.Data.List.Nodup

/-!
# Loops whose rounds do not meet

A loop over distinct items, each of which has a share of the state of its own.
A round takes the share of its item from `before` to `after` and leaves the
shares of the other items alone, so that after the loop every share is as its
own round left it.
-/

namespace OpenViking
namespace Folds

open List

variable {σ α : Type}

/-- A round on one item keeps what is known of another item's share. -/
def Apart (step : σ -> α -> σ) (known : α -> σ -> Prop) : Prop :=
  forall s a b, b ≠ a -> known b s -> known b (step s a)

variable {xs : List α}

variable {s : σ}

theorem foldl_of_notMem {step : σ -> α -> σ} {known : α -> σ -> Prop}
    (hapart : Apart step known) {b : α}
    (hb : b ∉ xs) (hknown : known b s) : known b (xs.foldl step s) := by
  induction xs generalizing s with
  | nil => exact hknown
  | cons a rest ih =>
    rw [foldl_cons]
    have hne : b ≠ a := fun heq => hb (heq ▸ mem_cons_self)
    exact ih (fun hmem => hb (mem_cons_of_mem a hmem))
      (hapart s a b hne hknown)

variable {before after : α -> σ -> Prop}

theorem foldl_each {step : σ -> α -> σ}
    (hbefore : Apart step before) (hafter : Apart step after)
    (hstep : forall s a, before a s -> after a (step s a)) (hnodup : xs.Nodup)
    (hstart : forall a, a ∈ xs -> before a s) :
    forall a, a ∈ xs -> after a (xs.foldl step s) := by
  induction xs generalizing s with
  | nil =>
    intro a ha
    cases ha
  | cons b rest ih =>
    have hb : b ∉ rest := (nodup_cons.mp hnodup).1
    have hrest : forall a, a ∈ rest -> before a (step s b) := by
      intro a ha
      have hne : a ≠ b := fun heq => hb (heq ▸ ha)
      exact hbefore s b a hne (hstart a (mem_cons_of_mem b ha))
    intro a ha
    rw [foldl_cons]
    rcases mem_cons.mp ha with rfl | hmem
    · exact foldl_of_notMem hafter hb (hstep s a (hstart a mem_cons_self))
    · exact ih (nodup_cons.mp hnodup).2 hrest a hmem

/-!
# Loops that can be broken off
-/

/-- A round keeps what is known of another item's share, finished or not. -/
def ApartM (step : σ -> α -> Except σ σ) (known : α -> σ -> Prop) : Prop :=
  forall s a b, b ≠ a -> known b s ->
    forall s', step s a = .ok s' ∨ step s a = .error s' -> known b s'

variable {step : σ -> α -> Except σ σ}

variable {s' : σ}

theorem foldlM_ok_cons {a : α} {rest : List α}
    (h : (a :: rest).foldlM step s = .ok s') :
    exists t, step s a = .ok t ∧ rest.foldlM step t = .ok s' := by
  rw [foldlM_cons] at h
  cases hstep : step s a with
  | error t =>
    rw [hstep] at h
    cases h
  | ok t =>
    rw [hstep] at h
    exact ⟨t, rfl, h⟩

theorem foldlM_error_cons {a : α}
    {rest : List α} (h : (a :: rest).foldlM step s = .error s') :
    step s a = .error s' ∨
      exists t, step s a = .ok t ∧ rest.foldlM step t = .error s' := by
  rw [foldlM_cons] at h
  cases hstep : step s a with
  | error t =>
    rw [hstep] at h
    cases h
    exact .inl rfl
  | ok t =>
    rw [hstep] at h
    exact .inr ⟨t, rfl, h⟩

theorem foldlM_of_notMem
    (known : α -> σ -> Prop) (hapart : ApartM step known) {b : α} (hb : b ∉ xs)
    (hknown : known b s) :
    forall s', xs.foldlM step s = .ok s' ∨ xs.foldlM step s = .error s' ->
      known b s' := by
  induction xs generalizing s with
  | nil =>
    intro s' h
    rcases h with h | h
    · cases h
      exact hknown
    · cases h
  | cons a rest ih =>
    have hne : b ≠ a := fun heq => hb (heq ▸ mem_cons_self)
    have hrest : b ∉ rest := fun hmem => hb (mem_cons_of_mem a hmem)
    intro s' h
    rcases h with h | h
    · rcases foldlM_ok_cons h with ⟨t, ht, hfold⟩
      exact ih hrest (hapart s a b hne hknown t (.inl ht)) s' (.inl hfold)
    · rcases foldlM_error_cons h with ht | ⟨t, ht, hfold⟩
      · exact hapart s a b hne hknown s' (.inr ht)
      · exact ih hrest (hapart s a b hne hknown t (.inl ht)) s' (.inr hfold)

theorem foldlM_each
    (hbefore : ApartM step before) (hafter : ApartM step after)
    (hstep : forall s a s', before a s -> step s a = .ok s' -> after a s')
    (hnodup : xs.Nodup)
    (hstart : forall a, a ∈ xs -> before a s)
    (h : xs.foldlM step s = .ok s') :
    forall a, a ∈ xs -> after a s' := by
  induction xs generalizing s with
  | nil =>
    intro a ha
    cases ha
  | cons b rest ih =>
    have hb : b ∉ rest := (nodup_cons.mp hnodup).1
    rcases foldlM_ok_cons h with ⟨t, ht, hfold⟩
    have hrest : forall a, a ∈ rest -> before a t := by
      intro a ha
      have hne : a ≠ b := fun heq => hb (heq ▸ ha)
      exact hbefore s b a hne (hstart a (mem_cons_of_mem b ha)) t (.inl ht)
    intro a ha
    rcases mem_cons.mp ha with rfl | hmem
    · exact foldlM_of_notMem after hafter hb
        (hstep s a t (hstart a mem_cons_self) ht) s' (.inl hfold)
    · exact ih (nodup_cons.mp hnodup).2 hrest hfold a hmem

/-- A loop that is broken off leaves every share before its round, after it,
or as the broken round left it. -/
theorem foldlM_broken (broken : α -> σ -> Prop)
    (hbefore : ApartM step before) (hafter : ApartM step after)
    (hstep : forall s a s', before a s -> step s a = .ok s' -> after a s')
    (hbroken : forall s a s', before a s -> step s a = .error s' ->
      broken a s') (hnodup : xs.Nodup)
    (hstart : forall a, a ∈ xs -> before a s)
    (h : xs.foldlM step s = .error s') :
    forall a, a ∈ xs -> before a s' ∨ after a s' ∨ broken a s' := by
  induction xs generalizing s with
  | nil => cases h
  | cons b rest ih =>
    have hb : b ∉ rest := (nodup_cons.mp hnodup).1
    have hothers : forall a, a ∈ rest -> forall t,
        step s b = .ok t ∨ step s b = .error t -> before a t := by
      intro a ha
      have hne : a ≠ b := fun heq => hb (heq ▸ ha)
      exact hbefore s b a hne (hstart a (mem_cons_of_mem b ha))
    rcases foldlM_error_cons h with ht | ⟨t, ht, hfold⟩
    · intro a ha
      rcases mem_cons.mp ha with rfl | hmem
      · exact .inr (.inr (hbroken s a s' (hstart a mem_cons_self) ht))
      · exact .inl (hothers a hmem s' (.inr ht))
    · intro a ha
      rcases mem_cons.mp ha with rfl | hmem
      · exact .inr (.inl (foldlM_of_notMem after hafter hb
          (hstep s a t (hstart a mem_cons_self) ht) s'
          (.inr hfold)))
      · exact ih (nodup_cons.mp hnodup).2
          (fun c hc => hothers c hc t (.inl ht)) hfold a hmem

theorem foldlM_error_round
    {before : α -> σ -> Prop} (hbefore : ApartM step before) (hnodup : xs.Nodup)
    (hstart : forall a, a ∈ xs -> before a s)
    (h : xs.foldlM step s = .error s') :
    exists a t, before a t ∧ step t a = .error s' := by
  induction xs generalizing s with
  | nil => cases h
  | cons b rest ih =>
    have hb : b ∉ rest := (nodup_cons.mp hnodup).1
    rcases foldlM_error_cons h with ht | ⟨t, ht, hfold⟩
    · exact ⟨b, s, hstart b mem_cons_self, ht⟩
    · refine ih (nodup_cons.mp hnodup).2 ?_ hfold
      intro a ha
      have hne : a ≠ b := fun heq => hb (heq ▸ ha)
      exact hbefore s b a hne (hstart a (mem_cons_of_mem b ha)) t (.inl ht)

end Folds
end OpenViking
