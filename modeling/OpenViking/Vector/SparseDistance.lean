import Mathlib.Algebra.BigOperators.Ring.Finset
import Mathlib.Algebra.Ring.Defs
import Mathlib.Order.Defs.LinearOrder

/-!
# Distance of sparse vectors

The kernels shrink two sorted arrays of indices from both ends at once.  A
datapoint is a pair of arrays, and reading beyond an array gives no result.
-/

namespace OpenViking
namespace Vector

open List

/-- A view of a datapoint whose indices increase. -/
structure SparseDatapointView (ι value : Type) [LinearOrder ι] where
  indices : List ι
  values : List value
  lengths : values.length = indices.length
  increasing : indices.Pairwise (· < ·)

namespace SparseDatapointView

variable {ι value : Type} [LinearOrder ι] (v : SparseDatapointView ι value)

def nonzeroEntries : Nat :=
  v.indices.length

/-- The pairs of an index and its value. -/
def entries : List (ι × value) :=
  v.indices.zip v.values

end SparseDatapointView

/-- A `size_t` subtraction that does not wrap. -/
def subSize (a b : Nat) : Option Nat :=
  if b ≤ a then some (a - b) else none

def readSigned {α : Type} (xs : List α) (i : Int) : Option α :=
  if 0 ≤ i then xs[i.toNat]? else none

def boolToSize (b : Bool) : Nat :=
  if b then 1 else 0

section Kernels

variable {ι T U R : Type} [LinearOrder ι]

def dotProductReduceTwo [Add R] [Mul R] (acc : R) (a b : R) : R :=
  acc + a * b

def squaredL2ReduceTwo [Add R] [Mul R] [Sub R] (acc : R) (a b : R) : R :=
  acc + (a - b) * (a - b)

def squaredL2ReduceOne [Add R] [Mul R] (acc : R) (a : R) : R :=
  acc + a * a

/-!
# The kernel without a one-sided reducer
-/

/-- The four cursors of `size_t`. -/
structure Cursors where
  front1 : Nat
  front2 : Nat
  back1 : Nat
  back2 : Nat

section OnlyReduceTwo

variable (reduceTwo : R -> T -> U -> R) (v : SparseDatapointView ι T)
  (w : SparseDatapointView ι U)

/-- A match of the two cursors is counted. -/
def reduceMatch (i j : Nat) (result : R) : Option R := do
  let a <- v.indices[i]?
  let b <- w.indices[j]?
  if a = b then
    let x <- v.values[i]?
    let y <- w.values[j]?
    some (reduceTwo result x y)
  else some result

/-- The cursors after a turn. -/
def Cursors.advance (c : Cursors) : Option Cursors := do
  let front1 <- v.indices[c.front1]?
  let front2 <- w.indices[c.front2]?
  let last1 <- v.indices[c.back1]?
  let last2 <- w.indices[c.back2]?
  let back1 <- subSize c.back1 (boolToSize (decide (last1 ≥ last2)))
  let back2 <- subSize c.back2 (boolToSize (decide (last1 ≤ last2)))
  some
    { front1 := c.front1 + boolToSize (decide (front1 ≤ front2))
      front2 := c.front2 + boolToSize (decide (front1 ≥ front2))
      back1 := back1
      back2 := back2 }

/-- The loop from both ends; no result when the fuel ends first. -/
def shrinkLoop : Nat -> Cursors -> R -> Option (Cursors × R)
  | 0, _, _ => none
  | fuel + 1, c, result =>
    if c.front1 < c.back1 ∧ c.front2 < c.back2 then do
      let result <- reduceMatch reduceTwo v w c.front1 c.front2 result
      let result <- reduceMatch reduceTwo v w c.back1 c.back2 result
      let c <- c.advance v w
      shrinkLoop fuel c result
    else some (c, result)

/-- The search for the one entry that is left of the first array. -/
def searchSecond : Nat -> Cursors -> R -> Option R
  | 0, _, _ => none
  | fuel + 1, c, result =>
    if c.front2 ≤ c.back2 then do
      let a <- v.indices[c.front1]?
      let b <- w.indices[c.front2]?
      if a = b then reduceMatch reduceTwo v w c.front1 c.front2 result
      else searchSecond fuel { c with front2 := c.front2 + 1 } result
    else some result

def searchFirst : Nat -> Cursors -> R -> Option R
  | 0, _, _ => none
  | fuel + 1, c, result =>
    if c.front1 ≤ c.back1 then do
      let a <- v.indices[c.front1]?
      let b <- w.indices[c.front2]?
      if a = b then reduceMatch reduceTwo v w c.front1 c.front2 result
      else searchFirst fuel { c with front1 := c.front1 + 1 } result
    else some result

def sparseDistanceMeasureOnlyReduceTwo [Zero R] : Option R :=
  if v.nonzeroEntries = 0 ∨ w.nonzeroEntries = 0 then some 0
  else do
    let back1 <- subSize v.nonzeroEntries 1
    let back2 <- subSize w.nonzeroEntries 1
    let fuel := v.nonzeroEntries + w.nonzeroEntries + 1
    let (c, result) <- shrinkLoop reduceTwo v w fuel ⟨0, 0, back1, back2⟩ 0
    if c.front1 = c.back1 then searchSecond reduceTwo v w fuel c result
    else if c.front2 = c.back2 then searchFirst reduceTwo v w fuel c result
    else some result

end OnlyReduceTwo

/-!
# The kernel with both reducers
-/

/-- The four cursors of `ssize_t`. -/
structure SignedCursors where
  front1 : Int
  front2 : Int
  back1 : Int
  back2 : Int

section BothReducers

variable [Zero R] (reduceTwo : R -> R -> R -> R) (reduceOne : R -> R -> R)
  (v w : SparseDatapointView ι R)

/-- The bits of a value under a mask of ones or zeros. -/
def masked (keep : Bool) (x : R) : R :=
  if keep then x else 0

/-- The loop from both ends, with one result for each end. -/
def maskedLoop : Nat -> SignedCursors -> R -> R ->
    Option (SignedCursors × R × R)
  | 0, _, _, _ => none
  | fuel + 1, c, result0, result1 =>
    if c.front1 < c.back1 ∧ c.front2 < c.back2 then do
      let frontLeft <- readSigned v.values c.front1
      let frontRight <- readSigned w.values c.front2
      let backLeft <- readSigned v.values c.back1
      let backRight <- readSigned w.values c.back2
      let front1 <- readSigned v.indices c.front1
      let front2 <- readSigned w.indices c.front2
      let back1 <- readSigned v.indices c.back1
      let back2 <- readSigned w.indices c.back2
      let addFront1 := decide (front1 ≤ front2)
      let addFront2 := decide (front1 ≥ front2)
      let subBack2 := decide (back1 ≤ back2)
      let subBack1 := decide (back1 ≥ back2)
      maskedLoop fuel
        { front1 := c.front1 + boolToSize addFront1
          front2 := c.front2 + boolToSize addFront2
          back1 := c.back1 - boolToSize subBack1
          back2 := c.back2 - boolToSize subBack2 }
        (reduceTwo result0 (masked addFront1 frontLeft)
          (masked addFront2 frontRight))
        (reduceTwo result1 (masked subBack1 backLeft)
          (masked subBack2 backRight))
    else some (c, result0, result1)

/-- The merge of what the first loop left. -/
def mergeLoop : Nat -> SignedCursors -> R -> Option (SignedCursors × R)
  | 0, _, _ => none
  | fuel + 1, c, result =>
    if c.front1 ≤ c.back1 ∧ c.front2 ≤ c.back2 then do
      let front1 <- readSigned v.indices c.front1
      let front2 <- readSigned w.indices c.front2
      if front1 = front2 then do
        let x <- readSigned v.values c.front1
        let y <- readSigned w.values c.front2
        mergeLoop fuel
          { c with front1 := c.front1 + 1, front2 := c.front2 + 1 }
          (reduceTwo result x y)
      else if front1 < front2 then do
        let x <- readSigned v.values c.front1
        mergeLoop fuel { c with front1 := c.front1 + 1 } (reduceOne result x)
      else do
        let y <- readSigned w.values c.front2
        mergeLoop fuel { c with front2 := c.front2 + 1 } (reduceOne result y)
    else some (c, result)

/-- The rest of one array. -/
def restLoop (values : List R) : Nat -> Int -> Int -> R -> Option R
  | 0, _, _, _ => none
  | fuel + 1, front, back, result =>
    if front ≤ back then do
      let x <- readSigned values front
      restLoop values fuel (front + 1) back (reduceOne result x)
    else some result

def sparseDistanceMeasure [Add R] : Option R := do
  let fuel := v.nonzeroEntries + w.nonzeroEntries + 1
  let start : SignedCursors :=
    ⟨0, 0, (v.nonzeroEntries : Int) - 1, (w.nonzeroEntries : Int) - 1⟩
  let (c, result0, result1) <- maskedLoop reduceTwo v w fuel start 0 0
  let (c, result0) <- mergeLoop reduceTwo reduceOne v w fuel c result0
  let result0 <-
    if c.front1 > c.back1 then
      restLoop reduceOne w.values fuel c.front2 c.back2 result0
    else restLoop reduceOne v.values fuel c.front1 c.back1 result0
  some (result0 + result1)

end BothReducers

end Kernels

/-!
# Windows of an array
-/

section Windows

variable {α : Type} {xs mid rest : List α} {front stop : Nat} {a : α}

/-- The elements from the front cursor to before the stop. -/
def Window (xs : List α) (front stop : Nat) (mid : List α) : Prop :=
  exists pre post : List α, xs = pre ++ mid ++ post ∧ pre.length = front ∧
    front + mid.length = stop

theorem window_whole (xs : List α) : Window xs 0 xs.length xs :=
  ⟨[], [], by rw [nil_append, append_nil], rfl, Nat.zero_add _⟩

theorem Window.head (h : Window xs front stop (a :: rest)) :
    xs[front]? = some a ∧ Window xs (front + 1) stop rest := by
  rcases h with ⟨pre, post, hxs, hpre, hlen⟩
  constructor
  · rw [hxs, append_assoc, getElem?_append_right (Nat.le_of_eq hpre),
      hpre, Nat.sub_self]
    rfl
  · refine ⟨pre ++ [a], post, ?_, ?_, ?_⟩
    · rw [hxs, append_assoc pre [a] rest]
      rfl
    · rw [length_append, hpre]
      rfl
    · rw [length_cons] at hlen
      omega

theorem Window.last (h : Window xs front (stop + 1) (rest ++ [a])) :
    xs[stop]? = some a ∧ Window xs front stop rest := by
  rcases h with ⟨pre, post, hxs, hpre, hlen⟩
  rw [length_append, length_singleton] at hlen
  have hstop : (pre ++ rest).length = stop := by
    rw [length_append, hpre]
    omega
  constructor
  · rw [hxs, ← append_assoc, append_assoc _ [a] post,
      getElem?_append_right (Nat.le_of_eq hstop), hstop, Nat.sub_self]
    rfl
  · refine ⟨pre, a :: post, ?_, hpre, by omega⟩
    rw [hxs, ← append_assoc, append_assoc _ [a] post]
    rfl

variable (moves : Bool)

/-- The front element is left out when the cursor moves. -/
def keepFront (a : α) (rest : List α) : List α :=
  if moves then rest else a :: rest

def keepBack (rest : List α) (a : α) : List α :=
  if moves then rest else rest ++ [a]

theorem Window.keepFront (h : Window xs front stop (a :: rest)) (moves : Bool) :
    Window xs (front + boolToSize moves) stop (keepFront moves a rest) := by
  cases moves with
  | true => exact h.head.2
  | false => exact h

theorem Window.keepBack (h : Window xs front (stop + 1) (rest ++ [a]))
    (moves : Bool) :
    Window xs front (stop + 1 - boolToSize moves) (keepBack moves rest a) := by
  cases moves with
  | true => exact h.last.2
  | false => exact h

theorem keepFront_append (a b : α) (rest : List α) :
    Vector.keepFront moves a (rest ++ [b]) =
      Vector.keepFront moves a rest ++ [b] := by
  cases moves with
  | true => rfl
  | false => rfl

theorem keepFront_sublist (a : α) (rest : List α) :
    (Vector.keepFront moves a rest).Sublist (a :: rest) := by
  cases moves with
  | true => exact sublist_cons_self a rest
  | false => exact List.Sublist.refl _

theorem keepBack_sublist (a : α) (rest : List α) :
    (Vector.keepBack moves rest a).Sublist (rest ++ [a]) := by
  cases moves with
  | true => exact sublist_append_left rest [a]
  | false => exact List.Sublist.refl _

theorem Window.ends (h : Window xs front (stop + 1) mid) (hlt : front < stop) :
    exists (a b : α) (rest : List α), mid = a :: (rest ++ [b]) := by
  rcases h with ⟨pre, post, _, _, hlen⟩
  cases mid with
  | nil =>
    rw [length_nil] at hlen
    omega
  | cons a tail =>
    rcases eq_nil_or_concat tail with hnil | ⟨rest, b, heq⟩
    · rw [hnil, length_singleton] at hlen
      omega
    · exact ⟨a, b, rest, by rw [heq, concat_eq_append]⟩

theorem Window.length (h : Window xs front stop mid) :
    front + mid.length = stop := by
  rcases h with ⟨_, _, _, _, hlen⟩
  exact hlen

end Windows
end Vector
end OpenViking
