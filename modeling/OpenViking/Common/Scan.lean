import Mathlib.Data.List.Basic

/-!
# Reading a text by a pattern

A pattern is tried at every place from left to right, and after a match the
reading goes on behind it.  A text is so read as pieces: matches, and characters
at which none begins.
-/

namespace OpenViking
namespace Scan

open List

/-- What is sought at the front of a text.  A match is a nonempty front. -/
structure Pattern (α M : Type) where
  seek : List α -> Option M
  text : M -> List α
  sound : forall {s m}, seek s = some m -> text m ≠ [] ∧ text m <+: s

inductive Piece (α M : Type) where
  | plain (a : α)
  | found (m : M)
deriving DecidableEq

variable {α M : Type} (p : Pattern α M)

namespace Pattern

def textOf : Piece α M -> List α
  | .plain a => [a]
  | .found m => p.text m

def join (ps : List (Piece α M)) : List α :=
  ps.flatMap p.textOf

/-- The piece at the front of a text. -/
def next : List α -> Option (Piece α M)
  | [] => none
  | a :: rest =>
    match p.seek (a :: rest) with
    | some m => some (.found m)
    | none => some (.plain a)

/-- Reads on behind the characters of the last match. -/
def scanFrom : Nat -> List α -> List (Piece α M)
  | _, [] => []
  | skip + 1, _ :: rest => scanFrom skip rest
  | 0, a :: rest =>
    match p.seek (a :: rest) with
    | some m => .found m :: scanFrom ((p.text m).length - 1) rest
    | none => .plain a :: scanFrom 0 rest

def scan (s : List α) : List (Piece α M) :=
  p.scanFrom 0 s

def replaced (repl : M -> List α) : Piece α M -> List α
  | .plain a => [a]
  | .found m => repl m

/-- The text with every match replaced. -/
def sub (repl : M -> List α) (s : List α) : List α :=
  (p.scan s).flatMap (replaced repl)

/-- The matches among the pieces with the places where they start. -/
def places : Nat -> List (Piece α M) -> List (Nat × M)
  | _, [] => []
  | place, .plain _ :: ps => places (place + 1) ps
  | place, .found m :: ps => (place, m) :: places (place + (p.text m).length) ps

variable {p} {s : List α} {q : Piece α M} {m : M}

@[simp] theorem join_nil : p.join [] = [] := rfl

@[simp] theorem scan_nil : p.scan [] = [] := rfl

def Reads (p : Pattern α M) : List (Piece α M) -> Prop
  | [] => True
  | q :: ps => p.next (p.join (q :: ps)) = some q ∧ Reads p ps

/-- Some pieces are cut, and only such as may be. -/
inductive Cuts (may : Piece α M -> Prop) :
    List (Piece α M) -> List (Piece α M) -> Prop where
  | nil : Cuts may [] []
  | stays (q : Piece α M) {ps qs} : Cuts may ps qs -> Cuts may (q :: ps) (q :: qs)
  | cut (q : Piece α M) {ps qs} : may q -> Cuts may ps qs -> Cuts may (q :: ps) qs

theorem Cuts.mem {may : Piece α M -> Prop} {ps qs : List (Piece α M)}
    (h : Cuts may ps qs) (hq : q ∈ ps) (hstays : ¬ may q) : q ∈ qs := by
  induction h with
  | nil => exact hq
  | stays q' _ ih =>
    cases hq with
    | head => exact mem_cons_self
    | tail _ hq => exact mem_cons_of_mem _ (ih hq)
  | cut q' hmay _ ih =>
    cases hq with
    | head => exact absurd hmay hstays
    | tail _ hq => exact ih hq

end Pattern
end Scan
end OpenViking
