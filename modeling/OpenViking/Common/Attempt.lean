import Mathlib.Data.Set.Defs

/-!
# Attempts

An attempt changes a state and succeeds or fails; a failure does not undo what
was changed before it.  Attempts are composed like the statements of a program
that returns at the first error.
-/

namespace OpenViking

theorem bind_ok {ε α β : Type} {x : Except ε α} {f : α -> Except ε β} {b : β}
    (h : x >>= f = .ok b) :
    exists a, x = .ok a ∧ f a = .ok b := by
  cases x with
  | error e => cases h
  | ok a => exact ⟨a, rfl, h⟩

def Attempt (ε σ α : Type) : Type :=
  σ -> Except ε α × σ

namespace Attempt

variable {ε σ α β : Type}

def fail (e : ε) : Attempt ε σ α :=
  fun s => (.error e, s)

def bind (x : Attempt ε σ α) (f : α -> Attempt ε σ β) : Attempt ε σ β :=
  fun s =>
    match x s with
    | (.ok a, s') => f a s'
    | (.error e, s') => (.error e, s')

instance : Monad (Attempt ε σ) where
  pure a := fun s => (.ok a, s)
  bind := bind

def modify (f : σ -> σ) : Attempt ε σ Unit :=
  fun s => (.ok (), f s)

/-- Go on with the result of an attempt, also when it failed. -/
def result (x : Attempt ε σ α) : Attempt ε σ (Except ε α) :=
  fun s => (.ok (x s).1, (x s).2)

/-- Take the outcome of an attempt, whatever its error type, as a value. -/
def outcome {ε' : Type} (x : Attempt ε' σ α) : Attempt ε σ (Except ε' α) :=
  fun s => (.ok (x s).1, (x s).2)

/-- A step that cannot fail. -/
def sure (f : σ -> α × σ) : Attempt ε σ α :=
  fun s => (.ok (f s).1, (f s).2)

@[simp] theorem pure_apply (a : α) (s : σ) :
    (pure a : Attempt ε σ α) s = (.ok a, s) :=
  rfl

variable {f : α -> Attempt ε σ β} {x : Attempt ε σ α}

theorem bind_of_ok {s s' : σ}
    {a : α} (h : x s = (.ok a, s')) : (x >>= f) s = f a s' := by
  show bind x f s = f a s'
  rw [bind, h]

theorem bind_of_error {s s' : σ}
    {e : ε} (h : x s = (.error e, s')) :
    (x >>= f) s = (.error e, s') := by
  show bind x f s = _
  rw [bind, h]

theorem exists_of_bind_ok
    {s s' : σ} {b : β} (h : (x >>= f) s = (.ok b, s')) :
    exists (a : α) (mid : σ),
      x s = (.ok a, mid) ∧ f a mid = (.ok b, s') := by
  change bind x f s = _ at h
  rw [bind] at h
  split at h
  · rename_i a mid hx
    exact ⟨a, mid, hx, h⟩
  · cases h

theorem bind_error_cases
    {s s' : σ} {e : ε} (h : (x >>= f) s = (.error e, s')) :
    x s = (.error e, s') ∨
      exists (a : α) (mid : σ),
        x s = (.ok a, mid) ∧ f a mid = (.error e, s') := by
  change bind x f s = _ at h
  rw [bind] at h
  split at h
  · rename_i a mid hx
    exact .inr ⟨a, mid, hx, h⟩
  · rename_i e' mid hx
    cases h
    exact .inl hx

/-!
# Attempts at rest

From a set of states that it does not leave, an attempt can have one outcome
whatever the state is.
-/

section Gives

variable {S : Set σ}

def Gives (S : Set σ) (x : Attempt ε σ α) (r : Except ε α) : Prop :=
  forall s : σ, s ∈ S -> (x s).1 = r ∧ (x s).2 ∈ S

theorem gives_pure (a : α) : Gives S (pure a : Attempt ε σ α) (.ok a) :=
  fun _ hs => ⟨rfl, hs⟩

theorem gives_fail (e : ε) : Gives S (fail e : Attempt ε σ α) (.error e) :=
  fun _ hs => ⟨rfl, hs⟩

theorem Gives.bind_ok {a : α}
    {r : Except ε β} (hx : Gives S x (.ok a)) (hf : Gives S (f a) r) :
    Gives S (x >>= f) r := by
  intro s hs
  have hstep : (x >>= f) s = f a (x s).2 :=
    bind_of_ok (Prod.ext (hx s hs).left rfl)
  rw [hstep]
  exact hf _ (hx s hs).right

theorem Gives.bind_error {e : ε}
    (hx : Gives S x (.error e)) :
    Gives S (x >>= f) (.error e) := by
  intro s hs
  have hstep : (x >>= f) s = (.error e, (x s).2) :=
    bind_of_error (Prod.ext (hx s hs).left rfl)
  rw [hstep]
  exact ⟨rfl, (hx s hs).right⟩

theorem Gives.outcome {ε' : Type} {x : Attempt ε' σ α} {r : Except ε' α}
    (hx : Gives S x r) :
    Gives S (outcome x : Attempt ε σ (Except ε' α)) (Except.ok r) :=
  fun s hs => ⟨congrArg Except.ok (hx s hs).left, (hx s hs).right⟩

theorem gives_sure {f : σ -> α × σ} {a : α}
    (hf : forall s : σ, s ∈ S -> (f s).1 = a ∧ (f s).2 ∈ S) :
    Gives S (sure f : Attempt ε σ α) (Except.ok a) :=
  fun s hs => ⟨congrArg Except.ok (hf s hs).left, (hf s hs).right⟩

end Gives

end Attempt
end OpenViking
