import OpenViking.Common.Places
import OpenViking.Vector.Catalog

/-!
# The rows of the flat store

The rows of the store are compared with the catalog: every row is a live
label with what the catalog knows about it, and the maps lead to the rows.
-/

namespace OpenViking
namespace Vector

open Paths Places

variable {term vec enc value : Type}

/-!
# Conversions
-/

variable {n : Nat}

theorem toInt_of_lt (h : n < 2 ^ 31) : toInt n = n :=
  Int.bmod_eq_of_le (by omega) (by omega)

theorem toSize_natCast (h : n < 2 ^ 31) : toSize (n : Int) = n := by
  rw [toSize, Int.emod_eq_of_lt (by omega) (by omega), Int.toNat_natCast]

theorem toSize_toInt (h : n < 2 ^ 31) : toSize (toInt n) = n := by
  rw [toInt_of_lt h, toSize_natCast h]

theorem toNat_ofNat_offset (h : n < 2 ^ 31) : (UInt32.ofNat n).toNat = n := by
  rw [UInt32.toNat_ofNat', Nat.mod_eq_of_lt (by omega)]

/-!
# Rows
-/

/-- A row: the element in the buffer and the entries of the sparse row. -/
structure Row (enc value : Type) where
  cell : Cell enc
  sparse : List (IndexT × value)

namespace Row

def label (row : Row enc value) : Label :=
  row.cell.label

def offset (row : Row enc value) : Offset :=
  row.cell.offset

/-- The row after `add_point` wrote its element. -/
def rewrite (cfg : Config term vec enc) (old : Row enc value)
    (vector : Option vec) (sparse : List (IndexT × value)) : Row enc value where
  cell := {
    vector := (vector.map cfg.encode).getD old.cell.vector
    label := old.label
    offset := old.offset }
  sparse := sparse

end Row

namespace FlatStore

/-- The term table. -/
def terms (s : FlatStore enc value) : List TermKey :=
  match s.sparseIndex with
  | some sparse => sparse.indexTerm
  | none => []

end FlatStore

/-- The sparse holder, if there is one, keeps these rows. -/
def SparsePart (enable : Bool) (sparse : Option (SparseRowIndex value))
    (rows : List (List (IndexT × value))) : Prop :=
  match sparse with
  | none => enable = false
  | some s => enable = true ∧ SparseOk s rows

/-- The store keeps these rows, in this order. -/
structure StoreOk (cfg : Config term vec enc) (s : FlatStore enc value)
    (rows : List (Row enc value)) : Prop where
  count : s.currentCount = rows.length
  room : rows.length ≤ s.capacity
  memory : s.buffer.length = s.capacity
  cells : forall (n : Nat) (row : Row enc value), rows[n]? = some row ->
    s.buffer[n]? = some row.cell
  labels : Placed (rows.map Row.label) s.labelMap
  offsets : Placed (rows.map Row.offset) s.offsetMap
  sparse : SparsePart cfg.enableSparse s.sparseIndex (rows.map Row.sparse)

/-- A row holds what the catalog knows about its label. -/
structure Describes (enable : Bool) (terms : List TermKey)
    (row : Row enc value) (e : Entry enc value) : Prop where
  offset : row.offset.toNat = e.offset
  vector : forall v, e.vector = some v -> row.cell.vector = v
  sparse : enable = true -> RowMeans terms row.sparse e.sparse

/-- The rows are the live labels of the catalog. -/
structure Lists (cfg : Config term vec enc) (terms : List TermKey)
    (rows : List (Row enc value)) (c : Catalog enc value) : Prop where
  row : forall row : Row enc value, row ∈ rows -> exists e,
    c.live row.label = some e ∧ Describes cfg.enableSparse terms row e
  live : forall label e, c.live label = some e -> label ∈ rows.map Row.label

structure Agrees (cfg : Config term vec enc) (s : FlatStore enc value)
    (c : Catalog enc value) (rows : List (Row enc value)) : Prop where
  store : StoreOk cfg s rows
  lists : Lists cfg s.terms rows c
  next : s.nextLogicalOffset = c.next

/-!
# Facts about rows
-/

variable {terms : List TermKey}

theorem Describes.extend {enable : Bool} {terms' : List TermKey}
    {row : Row enc value} {e : Entry enc value}
    (h : Describes enable terms row e) (hpre : terms <+: terms') :
    Describes enable terms' row e :=
  ⟨h.offset, h.vector, fun henable => (h.sparse henable).extend hpre⟩

variable {rows : List (Row enc value)} {cfg : Config term vec enc}

theorem Lists.extend {terms' : List TermKey} {c : Catalog enc value}
    (h : Lists cfg terms rows c) (hpre : terms <+: terms') :
    Lists cfg terms' rows c where
  row := by
    intro row hrow
    rcases h.row row hrow with ⟨e, hlive, hdesc⟩
    exact ⟨e, hlive, hdesc.extend hpre⟩
  live := h.live

theorem Lists.length_le {c : Catalog enc value}
    (h : Lists cfg terms rows c) (hc : c.Ok)
    (hoffsets : (rows.map Row.offset).Nodup) : rows.length ≤ c.next := by
  have hnodup : (rows.map fun r => r.offset.toNat).Nodup := by
    have hmap : (rows.map fun r => r.offset.toNat) =
        (rows.map Row.offset).map UInt32.toNat := by
      rw [List.map_map]
      rfl
    rw [hmap]
    exact hoffsets.map fun a b => UInt32.toNat_inj.mp
  have hsub : (rows.map fun r => r.offset.toNat) ⊆ List.range c.next := by
    intro n hn
    rcases List.mem_map.mp hn with ⟨row, hrow, rfl⟩
    rcases h.row row hrow with ⟨e, hlive, hdesc⟩
    rw [List.mem_range, hdesc.offset]
    exact hc.offset_lt hlive
  have hle := (List.subperm_of_subset hnodup hsub).length_le
  rwa [List.length_map, List.length_range] at hle

theorem StoreOk.cell {s : FlatStore enc value} (h : StoreOk cfg s rows)
    {row : Row enc value} (hn : rows[n]? = some row) :
    s.cell cfg n = row.cell := by
  rw [FlatStore.cell, List.getD_eq_getElem?_getD, h.cells n row hn,
    Option.getD_some]

theorem StoreOk.find_label
    {s : FlatStore enc value}
    (h : StoreOk cfg s rows) {label : Label} {i : Int}
    (hfind : s.labelMap.find label = some i) :
    exists (n : Nat) (row : Row enc value),
      rows[n]? = some row ∧ row.label = label ∧ i = (n : Int) := by
  rcases (h.labels.find label i).mp hfind with ⟨n, hn, hi⟩
  rw [List.getElem?_map, Option.map_eq_some_iff] at hn
  rcases hn with ⟨row, hrow, hlabel⟩
  exact ⟨n, row, hrow, hlabel, hi⟩

end Vector
end OpenViking
