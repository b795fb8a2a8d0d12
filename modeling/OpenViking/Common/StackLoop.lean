import Mathlib.Data.List.Basic

/-!
# Loops over a stack of tasks

A loop takes the top task of a stack, changes its state, and pushes further
tasks, until the stack is empty, the loop is left, or a task fails.  Tasks at
the top of the stack perform a function of the state when the loop always
reaches the rest of the stack with what the function gives.
-/

namespace OpenViking
namespace StackLoop

variable {ε task σ : Type}

/-- How a task leaves the loop. -/
inductive Outcome (ε task σ : Type) where
  | next (pushed : List task) (s : σ)
  | stop (s : σ)
  | fail (e : ε)

/-- No result when the fuel ends before the loop does. -/
def loop (step : task -> σ -> Outcome ε task σ) :
    Nat -> List task -> σ -> Option (Except ε σ)
  | 0, _, _ => none
  | _ + 1, [], s => some (.ok s)
  | fuel + 1, t :: ts, s =>
    match step t s with
    | .next pushed s' => loop step fuel (pushed ++ ts) s'
    | .stop s' => some (.ok s')
    | .fail e => some (.error e)

/-- The loop ends with the result. -/
def Runs (step : task -> σ -> Outcome ε task σ) (ts : List task) (s : σ)
    (out : Except ε σ) : Prop :=
  exists fuel : Nat, loop step fuel ts s = some out

variable {step : task -> σ -> Outcome ε task σ}

variable {ts : List task}

variable {out : Except ε σ}

variable {s : σ}

theorem loop_mono {fuel fuel' : Nat} (hle : fuel ≤ fuel')
    (h : loop step fuel ts s = some out) :
    loop step fuel' ts s = some out := by
  induction fuel generalizing fuel' ts s with
  | zero => cases h
  | succ fuel ih =>
    cases fuel' with
    | zero => exact absurd hle (Nat.not_succ_le_zero _)
    | succ fuel' =>
      cases ts with
      | nil => exact h
      | cons t ts =>
        rw [loop] at h ⊢
        cases hstep : step t s with
        | next pushed s' =>
          rw [hstep] at h
          exact ih (Nat.le_of_succ_le_succ hle) h
        | stop s' =>
          rw [hstep] at h
          exact h
        | fail e =>
          rw [hstep] at h
          exact h

theorem Runs.unique {out' : Except ε σ}
    (h : Runs step ts s out) (h' : Runs step ts s out') : out = out' := by
  rcases h with ⟨fuel, hout⟩
  rcases h' with ⟨fuel', hout'⟩
  have hfirst := loop_mono (Nat.le_max_left fuel fuel') hout
  have hlast := loop_mono (Nat.le_max_right fuel fuel') hout'
  exact Option.some.inj (hfirst.symm.trans hlast)

theorem Runs.nil (s : σ) : Runs step [] s (.ok s) :=
  ⟨1, rfl⟩

variable {t : task}

theorem Runs.next {ts pushed : List task} {s' : σ}
    (hstep : step t s = .next pushed s')
    (hrest : Runs step (pushed ++ ts) s' out) : Runs step (t :: ts) s out := by
  rcases hrest with ⟨fuel, hout⟩
  refine ⟨fuel + 1, ?_⟩
  rw [loop, hstep]
  exact hout

theorem Runs.stop {s' : σ} (hstep : step t s = .stop s') :
    Runs step (t :: ts) s (.ok s') := by
  refine ⟨1, ?_⟩
  rw [loop, hstep]

theorem Runs.fail {e : ε} (hstep : step t s = .fail e) :
    Runs step (t :: ts) s (.error e) := by
  refine ⟨1, ?_⟩
  rw [loop, hstep]

theorem runs_iff_of_idle (hidle : forall t : task, step t s = .stop s) :
    Runs step ts s out <-> out = .ok s := by
  have hruns : Runs step ts s (.ok s) := by
    cases ts with
    | nil => exact Runs.nil s
    | cons t ts => exact Runs.stop (hidle t)
  constructor
  · intro h
    exact h.unique hruns
  · intro h
    rw [h]
    exact hruns

/-!
# Tasks that perform a function
-/

/-- The rest of the stack runs from what the function gives. -/
def After (step : task -> σ -> Outcome ε task σ) (ts : List task)
    (given out : Except ε σ) : Prop :=
  match given with
  | .error e => out = .error e
  | .ok s => Runs step ts s out

def Performs (step : task -> σ -> Outcome ε task σ) (tasks : List task)
    (f : σ -> Except ε σ) : Prop :=
  forall (ts : List task) (s : σ) (out : Except ε σ),
    After step ts (f s) out -> Runs step (tasks ++ ts) s out

theorem performs_nil : Performs step [] .ok :=
  fun _ _ _ h => h

variable {f : σ -> Except ε σ}

theorem Performs.append {tasks tasks' : List task} {g : σ -> Except ε σ}
    (hf : Performs step tasks f) (hg : Performs step tasks' g) :
    Performs step (tasks ++ tasks') fun s => (f s).bind g := by
  intro ts s out h
  change After step ts ((f s).bind g) out at h
  rw [List.append_assoc]
  apply hf
  cases hgiven : f s with
  | error e =>
    rw [hgiven] at h
    exact h
  | ok s' =>
    rw [hgiven] at h
    exact hg ts s' out h

theorem Performs.runs {tasks : List task}
    (hf : Performs step tasks f) (s : σ) : Runs step tasks s (f s) := by
  have h := hf [] s (f s)
  rw [List.append_nil] at h
  apply h
  cases hgiven : f s with
  | error e => exact rfl
  | ok s' => exact Runs.nil s'

theorem performs_of_step (h : forall (s : σ) (ts : List task) (out : Except ε σ),
      After step ts (f s) out -> Runs step (t :: ts) s out) :
    Performs step [t] f :=
  fun ts s out hafter => h s ts out hafter

end StackLoop
end OpenViking
