import Mathlib.Data.List.Basic

/-!
# Concurrent tasks

A pool of tasks shares one state.  A task is a list of calls that runs in
order and ends at its first failing call; the calls of different tasks
interleave in any way.
-/

namespace OpenViking

open List

structure Task (tag call error : Type) where
  tag : tag
  todo : List call
  failed : Option error

namespace Task

variable {state tag call error : Type}

def start (t : tag) (calls : List call) : Task tag call error where
  tag := t
  todo := calls
  failed := none

section Step

variable (exec : state -> call -> Except error state)

/-- The next call of one task; a failing call leaves the state alone. -/
def step (s : state) (t : Task tag call error) :
    state × Task tag call error :=
  match t.todo with
  | [] => (s, t)
  | c :: rest =>
    match exec s c with
    | Except.ok s' => (s', { t with todo := rest })
    | Except.error e => (s, { t with todo := [], failed := some e })

/-- The next call of the task at position `i` of the pool. -/
def stepAt (p : state × List (Task tag call error)) (i : Nat) :
    state × List (Task tag call error) :=
  match p.2[i]? with
  | none => p
  | some t => ((step exec p.1 t).1, p.2.set i (step exec p.1 t).2)

def runSchedule (schedule : List Nat)
    (p : state × List (Task tag call error)) :
    state × List (Task tag call error) :=
  schedule.foldl (stepAt exec) p

/-- The schedule that runs the remaining calls task by task. -/
def drain : (start : Nat) -> List (Task tag call error) -> List Nat
  | _, [] => []
  | i, t :: rest => List.replicate t.todo.length i ++ drain (i + 1) rest

/-- Run a pool to its end, following `schedule` as far as it goes. -/
def runAll (schedule : List Nat) (s : state)
    (tasks : List (Task tag call error)) :
    state × List (Task tag call error) :=
  let p := runSchedule exec schedule (s, tasks)
  runSchedule exec (drain 0 p.2) p

end Step

/-!
# Rely and guarantee

`Shared` holds of the state, `Own` of each task; a step of one task must keep
the other tasks' `Own`.
-/

section Rules

variable (exec : state -> call -> Except error state)
  (Shared : state -> Prop)
  (Own : state -> Task tag call error -> Prop)

/-- What a pool satisfies between two steps. -/
def PoolInv (Shared : state -> Prop)
    (Own : state -> Task tag call error -> Prop)
    (p : state × List (Task tag call error)) : Prop :=
  Shared p.1 ∧ forall t, t ∈ p.2 -> Own p.1 t

variable {p : state × List (Task tag call error)}

section

variable
    (hstep : forall s t, Shared s -> Own s t -> Shared (step exec s t).1 ∧ Own (step exec s t).1 (step exec s t).2 ∧ forall u, Own s u -> Own (step exec s t).1 u)

include hstep

theorem stepAt_inv (h : PoolInv Shared Own p)
    (i : Nat) : PoolInv Shared Own (stepAt exec p i) := by
  unfold stepAt
  cases hi : p.2[i]? with
  | none => exact h
  | some t =>
    have hmem := mem_of_getElem? hi
    rcases hstep p.1 t h.1 (h.2 t hmem) with ⟨hshared, hown, hothers⟩
    refine ⟨hshared, ?_⟩
    intro u hu
    rcases mem_or_eq_of_mem_set hu with hold | rfl
    · exact hothers u (h.2 u hold)
    · exact hown

theorem runSchedule_inv
    (schedule : List Nat)
    (h : PoolInv Shared Own p) :
    PoolInv Shared Own (runSchedule exec schedule p) := by
  induction schedule generalizing p with
  | nil => exact h
  | cons i rest ih => exact ih (stepAt_inv exec Shared Own hstep h i)

theorem runAll_inv
    (schedule : List Nat) {s : state} {tasks : List (Task tag call error)}
    (hshared : Shared s) (hown : forall t, t ∈ tasks -> Own s t) :
    PoolInv Shared Own (runAll exec schedule s tasks) :=
  runSchedule_inv exec Shared Own hstep _
    (runSchedule_inv exec Shared Own hstep schedule ⟨hshared, hown⟩)

end

end Rules

/-!
# Every task keeps its place and ends
-/

section Ends

variable (exec : state -> call -> Except error state)

theorem step_tag (s : state) (t : Task tag call error) :
    (step exec s t).2.tag = t.tag := by
  unfold step
  split
  · rfl
  · split <;> rfl

theorem length_todo_step (s : state) (t : Task tag call error) :
    (step exec s t).2.todo.length ≤ t.todo.length - 1 := by
  unfold step
  split
  · rename_i h
    simp [h]
  · rename_i h
    split <;> simp [h]

theorem map_tag_stepAt (p : state × List (Task tag call error)) (i : Nat) :
    (stepAt exec p i).2.map Task.tag = p.2.map Task.tag := by
  unfold stepAt
  cases hi : p.2[i]? with
  | none => rfl
  | some t =>
    rcases List.getElem?_eq_some_iff.mp hi with ⟨hlt, rfl⟩
    rw [List.map_set, step_tag, ← List.getElem_map Task.tag (h := by simpa)]
    exact List.set_getElem_self _

theorem map_tag_runSchedule (schedule : List Nat)
    (p : state × List (Task tag call error)) :
    (runSchedule exec schedule p).2.map Task.tag = p.2.map Task.tag := by
  induction schedule generalizing p with
  | nil => rfl
  | cons i rest ih =>
    rw [runSchedule, foldl_cons, ← runSchedule, ih, map_tag_stepAt]

theorem map_tag_runAll (schedule : List Nat) (s : state)
    (tasks : List (Task tag call error)) :
    (runAll exec schedule s tasks).2.map Task.tag = tasks.map Task.tag := by
  unfold runAll
  rw [map_tag_runSchedule, map_tag_runSchedule]

theorem stepAt_getElem?_ne (p : state × List (Task tag call error))
    {i j : Nat} (h : i ≠ j) : (stepAt exec p i).2[j]? = p.2[j]? := by
  unfold stepAt
  cases p.2[i]? with
  | none => rfl
  | some t => exact getElem?_set_ne h

theorem stepAt_getElem?_self
    {i : Nat} {t : Task tag call error} (h : p.2[i]? = some t) :
    (stepAt exec p i).2[i]? = some (step exec p.1 t).2 := by
  unfold stepAt
  rw [h]
  have hi := (List.getElem?_eq_some_iff.mp h).1
  exact List.getElem?_set_self hi

private theorem runSchedule_replicate (n : Nat) {i : Nat}
    {t : Task tag call error} (h : p.2[i]? = some t)
    (hn : t.todo.length ≤ n) :
    (exists t', (runSchedule exec (replicate n i) p).2[i]? = some t' ∧
      t'.todo = []) ∧
    forall j, j ≠ i ->
      (runSchedule exec (replicate n i) p).2[j]? = p.2[j]? := by
  induction n generalizing p t with
  | zero =>
    refine ⟨⟨t, h, length_eq_zero_iff.mp (by omega)⟩, ?_⟩
    exact fun _ _ => rfl
  | succ n ih =>
    have hlen := length_todo_step exec p.1 t
    rcases ih (stepAt_getElem?_self exec h) (by omega) with
      ⟨hdone, hothers⟩
    refine ⟨hdone, ?_⟩
    intro j hj
    exact (hothers j hj).trans (stepAt_getElem?_ne exec p (Ne.symm hj))

private theorem runSchedule_drain (tasks : List (Task tag call error))
    {start : Nat}
    (hdrop : p.2.drop start = tasks)
    (hdone : forall (j : Nat) (t : Task tag call error), j < start ->
      p.2[j]? = some t -> t.todo = []) :
    forall (j : Nat) (t : Task tag call error),
      (runSchedule exec (drain start tasks) p).2[j]? = some t ->
        t.todo = [] := by
  induction tasks generalizing start p with
  | nil =>
    intro j t hj
    apply hdone j t _ hj
    by_contra hge
    have hlen := List.drop_eq_nil_iff.mp hdrop
    have hlt := (List.getElem?_eq_some_iff.mp hj).1
    change j < p.2.length at hlt
    omega
  | cons u rest ih =>
    have hu : p.2[start]? = some u := by
      have h := congrArg (fun l => l[0]?) hdrop
      simpa using h
    rcases runSchedule_replicate exec u.todo.length hu (Nat.le_refl _) with
      ⟨⟨u', hu', hnil⟩, hothers⟩
    rw [drain, runSchedule, List.foldl_append]
    apply ih
    · have htail : p.2.drop (start + 1) = rest := by
        rw [← List.tail_drop, hdrop, List.tail_cons]
      rw [← htail]
      apply List.ext_getElem?
      intro j
      rw [List.getElem?_drop, List.getElem?_drop]
      exact hothers _ (by omega)
    · intro j t hj hget
      by_cases hjs : j = start
      · subst hjs
        have heq := hu'.symm.trans hget
        cases heq
        exact hnil
      · exact hdone j t (by omega) ((hothers j hjs).symm.trans hget)

theorem runAll_done (schedule : List Nat) (s : state)
    (tasks : List (Task tag call error)) :
    forall t, t ∈ (runAll exec schedule s tasks).2 -> t.todo = [] := by
  intro t ht
  rcases mem_iff_getElem?.mp ht with ⟨j, hj⟩
  exact runSchedule_drain exec _ drop_zero (by simp) j t hj

theorem exists_done {item : Type} (schedule : List Nat) (s : state)
    (f : item -> Task tag call error) {items : List item} {b : item}
    (h : b ∈ items) :
    exists t, t ∈ (runAll exec schedule s (items.map f)).2 ∧
      t.tag = (f b).tag ∧ t.todo = [] := by
  have htag : (f b).tag ∈
      (runAll exec schedule s (items.map f)).2.map Task.tag := by
    rw [map_tag_runAll]
    exact mem_map_of_mem (mem_map_of_mem h)
  rcases mem_map.mp htag with ⟨t, ht, heq⟩
  exact ⟨t, ht, heq, runAll_done exec schedule s _ t ht⟩

end Ends

end Task
end OpenViking
