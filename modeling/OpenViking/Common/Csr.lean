import Mathlib.Data.List.Basic

/-!
# Rows of a table

A table is a list of rows.  An update changes the rows that a condition selects, and
a consuming update also returns the first of them.
-/

namespace OpenViking
namespace Rows

variable {row : Type}

def updateWhere (selected : row -> Bool) (change : row -> row) (rows : List row) :
    List row :=
  rows.map fun r => if selected r then change r else r

def consumeWhere (selected : row -> Bool) (change : row -> row) (rows : List row) :
    List row × Option row :=
  match rows.find? selected with
  | none => (rows, none)
  | some r => (updateWhere selected change rows, some r)

def deleteWhere (selected : row -> Bool) (rows : List row) : List row :=
  rows.filter fun r => !selected r

variable {selected : row -> Bool} {change : row -> row} {rows : List row} {r : row}

theorem mem_updateWhere :
    r ∈ updateWhere selected change rows <->
      exists old, old ∈ rows ∧ r = if selected old then change old else old := by
  rw [updateWhere, List.mem_map]
  constructor
  · intro h
    rcases h with ⟨old, hold, heq⟩
    exact ⟨old, hold, heq.symm⟩
  · intro h
    rcases h with ⟨old, hold, heq⟩
    exact ⟨old, hold, heq.symm⟩

theorem mem_deleteWhere :
    r ∈ deleteWhere selected rows <-> r ∈ rows ∧ selected r = false := by
  rw [deleteWhere, List.mem_filter, Bool.not_eq_true']

theorem forall_updateWhere {p : row -> Prop}
    (h : forall old, old ∈ rows -> p (if selected old then change old else old)) :
    forall r, r ∈ updateWhere selected change rows -> p r := by
  intro r hr
  rcases mem_updateWhere.mp hr with ⟨old, hold, heq⟩
  rw [heq]
  exact h old hold

theorem consumeWhere_cases (selected : row -> Bool) (change : row -> row)
    (rows : List row) :
    (consumeWhere selected change rows = (rows, none) ∧
      forall r, r ∈ rows -> selected r = false) ∨
      exists r, consumeWhere selected change rows =
        (updateWhere selected change rows, some r) ∧ r ∈ rows ∧ selected r = true := by
  unfold consumeWhere
  cases hfind : rows.find? selected with
  | none =>
    refine .inl ⟨rfl, ?_⟩
    intro r hr
    have hnot := List.find?_eq_none.mp hfind r hr
    simpa using hnot
  | some r =>
    exact .inr ⟨r, rfl, List.mem_of_find?_eq_some hfind, List.find?_some hfind⟩

theorem consumeWhere_some (h : (consumeWhere selected change rows).2 = some r) :
    r ∈ rows ∧ selected r = true ∧
      (consumeWhere selected change rows).1 = updateWhere selected change rows := by
  rcases consumeWhere_cases selected change rows with
    ⟨heq, _⟩ | ⟨found, heq, hmem, hsel⟩
  · rw [heq] at h
    cases h
  · rw [heq] at h ⊢
    cases h
    exact ⟨hmem, hsel, rfl⟩

theorem forall_consumeWhere {p : row -> Prop}
    (h : forall old, old ∈ rows -> p old)
    (hchange : forall old, old ∈ rows -> selected old = true -> p (change old)) :
    forall r, r ∈ (consumeWhere selected change rows).1 -> p r := by
  rcases consumeWhere_cases selected change rows with ⟨heq, _⟩ | ⟨found, heq, _⟩
  · rw [heq]
    exact h
  rw [heq]
  apply forall_updateWhere
  intro old hold
  cases hsel : selected old with
  | false =>
    rw [if_neg Bool.false_ne_true]
    exact h old hold
  | true =>
    rw [if_pos rfl]
    exact hchange old hold hsel

end Rows
end OpenViking

/-!
# Rows in one flat list

Rows of different lengths are kept one after the other in a flat list, and a
list of bounds says where each row begins and ends.  A row is read, replaced,
added or dropped by cutting the flat list at its bounds.
-/

namespace OpenViking
namespace Csr

variable {α : Type}

/-- The bounds of rows that begin at a position. -/
def bounds (start : Nat) : List (List α) -> List Nat
  | [] => [start]
  | row :: rest => start :: bounds (start + row.length) rest

/-- Where a row begins. -/
def rowStart (rows : List (List α)) (i : Nat) : Nat :=
  (rows.take i).flatten.length

variable (start : Nat)

@[simp] theorem length_bounds (rows : List (List α)) :
    (bounds start rows).length = rows.length + 1 := by
  induction rows generalizing start with
  | nil => rfl
  | cons row rest ih => rw [bounds, List.length_cons, ih, List.length_cons]

variable {rows : List (List α)} {i : Nat}

theorem getElem?_bounds (h : i ≤ rows.length) :
    (bounds start rows)[i]? = some (start + rowStart rows i) := by
  induction rows generalizing start i with
  | nil =>
    rw [List.length_nil, Nat.le_zero] at h
    subst h
    rfl
  | cons row rest ih =>
    cases i with
    | zero => rfl
    | succ i =>
      rw [bounds, List.getElem?_cons_succ, ih _ (Nat.le_of_succ_le_succ h),
        rowStart, rowStart, List.take_succ_cons, List.flatten_cons,
        List.length_append, Nat.add_assoc]

theorem bounds_append (rows : List (List α)) (row : List α) :
    bounds start (rows ++ [row]) =
      bounds start rows ++ [start + rows.flatten.length + row.length] := by
  induction rows generalizing start with
  | nil => simp [bounds]
  | cons r rest ih =>
    rw [List.cons_append, bounds, ih, bounds, List.cons_append,
      List.flatten_cons, List.length_append, Nat.add_assoc start]

/-!
# Cutting the flat list
-/

theorem flatten_split (h : i < rows.length) :
    rows.flatten = (rows.take i).flatten ++ rows[i] ++
      (rows.drop (i + 1)).flatten := by
  conv_lhs => rw [← List.take_append_drop i rows, List.drop_eq_getElem_cons h]
  rw [List.flatten_append, List.flatten_cons, List.append_assoc]

theorem flatten_set (row : List α)
    (h : i < rows.length) :
    (rows.set i row).flatten = (rows.take i).flatten ++ row ++
      (rows.drop (i + 1)).flatten := by
  rw [List.set_eq_take_append_cons_drop, if_pos h, List.flatten_append,
    List.flatten_cons, List.append_assoc]

theorem rowStart_set {i j : Nat} (row : List α)
    (h : i < rows.length) (hij : i < j) :
    rowStart (rows.set i row) j =
      rowStart rows j + row.length - rows[i].length := by
  have hlt : i < (rows.take j).length := by
    rw [List.length_take]
    omega
  have hold := congrArg List.length (flatten_split hlt)
  have hnew := congrArg List.length (flatten_set row hlt)
  simp only [List.length_append, List.getElem_take] at hold hnew
  rw [rowStart, rowStart, List.take_set, hnew, hold]
  omega

theorem rowStart_set_of_le {i j : Nat} (row : List α)
    (hij : j ≤ i) : rowStart (rows.set i row) j = rowStart rows j := by
  rw [rowStart, rowStart, List.take_set_of_le hij]

theorem length_le_rowStart {i j : Nat}
    (h : i < rows.length) (hij : i < j) :
    rows[i].length ≤ rowStart rows j := by
  have hlt : i < (rows.take j).length := by
    rw [List.length_take]
    omega
  have hold := congrArg List.length (flatten_split hlt)
  simp only [List.length_append, List.getElem_take] at hold
  rw [rowStart, hold]
  omega

theorem bounds_set (row : List α) (h : i < rows.length) :
    bounds start (rows.set i row) =
      (bounds start rows).mapIdx fun j b =>
        if i < j then b + row.length - rows[i].length else b := by
  apply List.ext_getElem?
  intro j
  rw [List.getElem?_mapIdx]
  by_cases hj : j ≤ rows.length
  · rw [getElem?_bounds start (by simpa using hj), getElem?_bounds start hj,
      Option.map_some]
    by_cases hij : i < j
    · have hle := length_le_rowStart h hij
      rw [if_pos hij, rowStart_set row h hij]
      congr 1
      omega
    · rw [if_neg hij, rowStart_set_of_le row (by omega)]
  · rw [List.getElem?_eq_none (by simp; omega),
      List.getElem?_eq_none (by simp; omega)]
    rfl

theorem bounds_dropLast (h : rows ≠ []) :
    bounds start rows.dropLast = (bounds start rows).dropLast := by
  conv_rhs => rw [← List.dropLast_append_getLast h]
  rw [bounds_append, List.dropLast_concat]

theorem rowStart_succ (h : i < rows.length) :
    rowStart rows (i + 1) = rowStart rows i + rows[i].length := by
  rw [rowStart, rowStart, List.take_succ_eq_append_getElem h,
    List.flatten_append, List.length_append, List.flatten_cons,
    List.flatten_nil, List.append_nil]

theorem take_rowStart (h : i < rows.length) :
    rows.flatten.take (rowStart rows i) = (rows.take i).flatten := by
  rw [flatten_split h, List.append_assoc, rowStart, List.take_left]

theorem drop_rowEnd (h : i < rows.length) :
    rows.flatten.drop (rowStart rows (i + 1)) =
      (rows.drop (i + 1)).flatten := by
  rw [rowStart_succ h, flatten_split h, rowStart, ← List.length_append,
    List.drop_left]

theorem slice_row (h : i < rows.length) :
    (rows.flatten.drop (rowStart rows i)).take
        (rowStart rows (i + 1) - rowStart rows i) = rows[i] := by
  rw [rowStart_succ h, Nat.add_sub_cancel_left, flatten_split h,
    List.append_assoc, rowStart, List.drop_left, List.take_left]

theorem splice_row (row : List α)
    (h : i < rows.length) :
    rows.flatten.take (rowStart rows i) ++ row ++
        rows.flatten.drop (rowStart rows (i + 1)) =
      (rows.set i row).flatten := by
  rw [take_rowStart h, drop_rowEnd h, flatten_set row h]

theorem flatten_dropLast (h : rows ≠ []) :
    rows.dropLast.flatten =
      rows.flatten.take (rowStart rows (rows.length - 1)) := by
  have hlt : rows.length - 1 < rows.length := by
    have hpos := List.length_pos_iff.mpr h
    omega
  rw [take_rowStart hlt, List.dropLast_eq_take]

end Csr
end OpenViking
