import Mathlib.Data.Option.Basic
import Mathlib.Data.List.Count

/-!
# Interleaved runs

A system changes its state by labelled steps, and a label that is not enabled
has no step.  A run takes the steps of all parties in any order.
-/

namespace OpenViking
namespace Interleaving

variable {state label : Type} (step : state -> label -> Option state)

def run : state -> List label -> Option state
  | s, [] => some s
  | s, l :: rest =>
    match step s l with
    | none => none
    | some s' => run s' rest

variable {l : label}

theorem run_cons_eq_some_iff {s s' : state} {rest : List label} :
    run step s (l :: rest) = some s' <->
      exists t, step s l = some t ∧ run step t rest = some s' := by
  rw [run]
  cases step s l with
  | none => simp
  | some t => simp

variable {ls rest : List label} {s t : state}

theorem run_append
    (h : run step s ls = some t) :
    run step s (ls ++ rest) = run step t rest := by
  induction ls generalizing s with
  | nil =>
    cases h
    rfl
  | cons l ls ih =>
    rcases (run_cons_eq_some_iff step).mp h with ⟨u, hu, hrun⟩
    rw [List.cons_append, run, hu]
    exact ih hrun

/-- Every step of the run satisfies `ok` in the state it is taken in. -/
def Meets (ok : state -> label -> Prop) : state -> List label -> Prop
  | _, [] => True
  | s, l :: rest =>
    ok s l ∧ forall s', step s l = some s' -> Meets ok s' rest

variable {ok : state -> label -> Prop}

variable {Inv : state -> Prop}

theorem run_inv (hstep : forall {s l s'}, Inv s -> ok s l -> step s l = some s' ->
      Inv s')
    {s s' : state} {ls : List label} (h : Inv s) (hmeets : Meets step ok s ls)
    (hrun : run step s ls = some s') : Inv s' := by
  induction ls generalizing s with
  | nil =>
    cases hrun
    exact h
  | cons l ls ih =>
    rcases (run_cons_eq_some_iff step).mp hrun with ⟨t, ht, hrest⟩
    exact ih (hstep h hmeets.1 ht) (hmeets.2 t ht) hrest

theorem meets_true (s : state) (ls : List label) :
    Meets step (fun _ _ => True) s ls := by
  induction ls generalizing s with
  | nil => trivial
  | cons l ls ih => exact ⟨trivial, fun s' _ => ih s'⟩

theorem meets_of_inv {ok good : state -> label -> Prop}
    (hstep : forall {s l s'}, Inv s -> ok s l -> step s l = some s' ->
      Inv s')
    (hgood : forall {s l}, Inv s -> ok s l -> good s l) {s : state}
    {ls : List label} (h : Inv s) (hmeets : Meets step ok s ls) :
    Meets step good s ls := by
  induction ls generalizing s with
  | nil => trivial
  | cons l ls ih =>
    constructor
    · exact hgood h hmeets.1
    · intro s' hs'
      exact ih (hstep h hmeets.1 hs') (hmeets.2 s' hs')

theorem meets_of_forall {s : state}
    {ls : List label} (h : forall l, l ∈ ls -> forall s, ok s l) :
    Meets step ok s ls := by
  induction ls generalizing s with
  | nil => trivial
  | cons l ls ih =>
    exact ⟨h l List.mem_cons_self s,
      fun _ _ => ih fun l' hl' => h l' (List.mem_cons_of_mem l hl')⟩

theorem meets_append (hmeets : Meets step ok s ls)
    (hrun : run step s ls = some t) (hrest : Meets step ok t rest) :
    Meets step ok s (ls ++ rest) := by
  induction ls generalizing s with
  | nil =>
    cases hrun
    exact hrest
  | cons l ls ih =>
    rcases (run_cons_eq_some_iff step).mp hrun with ⟨u, hu, hrun'⟩
    constructor
    · exact hmeets.1
    · intro s' hs'
      rw [hu] at hs'
      cases hs'
      exact ih (hmeets.2 u hu) hrun'

theorem meets_of_prepended {s : state} (hmeets : Meets step ok s (ls ++ rest)) :
    Meets step ok s ls := by
  induction ls generalizing s with
  | nil => trivial
  | cons l ls ih => exact ⟨hmeets.1, fun s' hs' => ih (hmeets.2 s' hs')⟩

theorem meets_of_append (hmeets : Meets step ok s (ls ++ rest))
    (hrun : run step s ls = some t) : Meets step ok t rest := by
  induction ls generalizing s with
  | nil =>
    cases hrun
    exact hmeets
  | cons l ls ih =>
    rcases (run_cons_eq_some_iff step).mp hrun with ⟨u, hu, hrun'⟩
    exact ih (hmeets.2 u hu) hrun'

theorem meets_cons {rest : List label} (hok : ok s l) (hstep : step s l = some t)
    (hrest : Meets step ok t rest) : Meets step ok s (l :: rest) := by
  refine ⟨hok, ?_⟩
  intro s' hs'
  rw [hstep] at hs'
  cases hs'
  exact hrest

theorem meets_cons_of_none {s : state}
    {rest : List label} (hstep : step s l = none) :
    ok s l <-> Meets step ok s (l :: rest) := by
  constructor
  · intro hok
    refine ⟨hok, ?_⟩
    intro s' hs'
    rw [hstep] at hs'
    cases hs'
  · exact And.left

theorem meets_cons_of_some {rest : List label} (hstep : step s l = some t) :
    (ok s l ∧ Meets step ok t rest) <-> Meets step ok s (l :: rest) :=
  ⟨fun h => meets_cons step h.1 hstep h.2, fun h => ⟨h.1, h.2 t hstep⟩⟩

/-- Whether a concrete run meets a condition can be computed. -/
instance decidableMeets {ok : state -> label -> Prop}
    [forall s l, Decidable (ok s l)] :
    forall (s : state) (ls : List label), Decidable (Meets step ok s ls)
  | _, [] => isTrue trivial
  | s, l :: rest =>
    match hstep : step s l with
    | none => decidable_of_iff (ok s l) (meets_cons_of_none step hstep)
    | some t =>
      have : Decidable (Meets step ok t rest) := decidableMeets t rest
      decidable_of_iff (ok s l ∧ Meets step ok t rest)
        (meets_cons_of_some step hstep)

theorem run_inv_of_step
    (hstep : forall {s l s'}, Inv s -> step s l = some s' -> Inv s')
    {s s' : state} {ls : List label} (h : Inv s)
    (hrun : run step s ls = some s') : Inv s' :=
  run_inv step (fun hs _ hst => hstep hs hst) h (meets_true step s ls) hrun

/-!
# Parties in a list

A step of one party replaces its entry.
-/

variable {i : Nat} {α : Type}

theorem getElem?_set_cases {l : List α} {j : Nat} {a b : α}
    (h : (l.set i a)[j]? = some b) :
    (j = i ∧ b = a) ∨ (j ≠ i ∧ l[j]? = some b) := by
  by_cases hij : i = j
  · subst hij
    rcases List.getElem?_eq_some_iff.mp h with ⟨hlt, hget⟩
    rw [List.getElem_set_self] at hget
    exact .inl ⟨rfl, hget.symm⟩
  · rw [List.getElem?_set_ne hij] at h
    exact .inr ⟨Ne.symm hij, h⟩

theorem getElem?_set_of_some {l : List α} {a b : α}
    (h : l[i]? = some b) : (l.set i a)[i]? = some a :=
  List.getElem?_set_self (List.getElem?_eq_some_iff.mp h).1

theorem map_set_of_some {β : Type} (f : α -> β) {l : List α}
    {a b : α} (h : l[i]? = some b) (hf : f a = f b) :
    (l.set i a).map f = l.map f := by
  rw [List.map_set, hf]
  apply List.ext_getElem?
  intro j
  have hlt := (List.getElem?_eq_some_iff.mp h).1
  by_cases heq : i = j
  · subst heq
    rw [List.getElem?_set_self (by simpa using hlt), List.getElem?_map, h]
    rfl
  · rw [List.getElem?_set_ne heq]

theorem countP_set_of_some (p : α -> Bool) {l : List α}
    {b : α} (a : α) (h : l[i]? = some b) :
    (l.set i a).countP p + (if p b then 1 else 0) =
      l.countP p + (if p a then 1 else 0) := by
  rcases List.getElem?_eq_some_iff.mp h with ⟨hlt, hget⟩
  have hset := List.countP_set (p := p) (a := a) hlt
  rw [hget] at hset
  rw [hset]
  have hle : (if p b then 1 else 0) ≤ l.countP p := by
    by_cases hb : p b = true
    · rw [if_pos hb]
      apply List.countP_pos_iff.mpr
      exact ⟨b, List.mem_of_getElem? h, hb⟩
    · rw [if_neg hb]
      exact Nat.zero_le _
  omega

/-!
# Observed runs

What an observer of the single steps has seen at the end of a run.
-/

section Trace

variable {event : Type} (observe : state -> label -> Option event)

def trace : state -> List label -> List event
  | _, [] => []
  | s, l :: rest =>
    (observe s l).toList ++
      match step s l with
      | none => []
      | some s' => trace s' rest

theorem trace_inv {Inv : List event -> state -> Prop}
    (hstep : forall {es s l s'}, Inv es s -> step s l = some s' ->
      Inv (es ++ (observe s l).toList) s')
    {es : List event} {s s' : state} {ls : List label} (h : Inv es s)
    (hrun : run step s ls = some s') :
    Inv (es ++ trace step observe s ls) s' := by
  induction ls generalizing es s with
  | nil =>
    cases hrun
    rw [trace, List.append_nil]
    exact h
  | cons l ls ih =>
    rcases (run_cons_eq_some_iff step).mp hrun with ⟨t, ht, hrest⟩
    rw [trace, ht, ← List.append_assoc]
    exact ih (hstep h ht) hrest

end Trace

end Interleaving
end OpenViking
