import OpenViking.Vector.SparseDataset

/-!
# The sparse row index keeps what it is given

The terms are numbered in the order in which they are met, and a row names
its terms by their numbers.  Later datapoints only add terms at the end, so a
row keeps its meaning.
-/

namespace OpenViking
namespace Vector

open Assoc List SparseRowIndex SparseDatapoint UInt32

variable {value : Type}

/-!
# Numbered keys
-/

/-- The map gives every key its place in the list. -/
structure Numbered (keys : List TermKey) (m : Assoc TermKey IndexT) :
    Prop where
  place : forall n k, keys[n]? = some k -> m.find k = some (UInt32.ofNat n)
  known : forall k, m.find k ≠ none -> k ∈ keys
  nodup : keys.Nodup

namespace Numbered

variable {keys : List TermKey} {m : Assoc TermKey IndexT}

theorem empty : Numbered [] ∅ where
  place := by
    intro n k h
    simp at h
  known := by
    intro k h
    exact absurd (find_empty k) h
  nodup := nodup_nil

variable {k : TermKey}

theorem notMem (h : Numbered keys m) (hk : m.find k = none) : k ∉ keys := by
  intro hmem
  rcases getElem?_of_mem hmem with ⟨n, hn⟩
  rw [h.place n k hn] at hk
  cases hk

theorem push (h : Numbered keys m) (hk : m.find k = none) :
    Numbered (keys ++ [k]) (m.put k (ofNat keys.length)) where
  place := by
    intro n k' hn
    by_cases hlt : n < keys.length
    · rw [getElem?_append_left hlt] at hn
      have hne : k' ≠ k := by
        intro heq
        subst heq
        exact h.notMem hk (mem_of_getElem? hn)
      rw [find_put_ne m _ hne, h.place n k' hn]
    · rw [getElem?_append_right (Nat.le_of_not_lt hlt)] at hn
      have hzero : n - keys.length = 0 := by
        cases hd : n - keys.length with
        | zero => rfl
        | succ d => simp [hd] at hn
      have hn' : n = keys.length := by omega
      rw [hzero] at hn
      cases hn
      rw [hn', find_put_self]
  known := by
    intro k' hk'
    rw [find_put] at hk'
    split at hk'
    next heq => simp [heq]
    next hne => simp [h.known k' hk']
  nodup := by
    rw [nodup_append]
    refine ⟨h.nodup, by simp, ?_⟩
    intro a ha b hb heq
    rw [mem_singleton.mp hb] at heq
    exact h.notMem hk (heq ▸ ha)

theorem getElem?_number (h : Numbered keys m) (hlen : keys.length < 2 ^ 32)
    {i : IndexT} (hk : m.find k = some i) :
    keys[i.toNat]? = some k := by
  have hmem := h.known k (by simp [hk])
  rcases List.getElem?_of_mem hmem with ⟨n, hn⟩
  have hlt := (List.getElem?_eq_some_iff.mp hn).1
  rw [h.place n k hn] at hk
  cases hk
  rw [toNat_ofNat', Nat.mod_eq_of_lt (by omega)]
  exact hn

end Numbered

/-!
# The meaning of a row
-/

/-- A value joins the sum of its key. -/
def addUp [Add value] (acc : List (TermKey × value))
    (item : TermKey × value) : List (TermKey × value) :=
  if item.1 ∈ acc.map Prod.fst then
    acc.map fun e => if e.1 = item.1 then (e.1, e.2 + item.2) else e
  else acc ++ [item]

/-- The keys of a datapoint, each once, with the sum of its values. -/
def accumulate [Add value] (items : List (TermKey × value)) :
    List (TermKey × value) :=
  items.foldl addUp []

/-- A row stands for a list of keys with values. -/
structure RowMeans (terms : List TermKey) (row : List (IndexT × value))
    (acc : List (TermKey × value)) : Prop where
  sorted : row.Pairwise fun a b => a.1 < b.1
  terms : (row.map fun e => (terms[e.1.toNat]?, e.2)).Perm
    (acc.map fun e => (some e.1, e.2))

namespace RowMeans

variable {terms terms' : List TermKey} {row : List (IndexT × value)}
  {acc : List (TermKey × value)}

theorem nil : RowMeans terms ([] : List (IndexT × value)) [] where
  sorted := List.Pairwise.nil
  terms := List.Perm.refl _

private theorem lt_length (h : RowMeans terms row acc) {e : IndexT × value}
    (he : e ∈ row) : e.1.toNat < terms.length := by
  have hmem := h.terms.subset (List.mem_map_of_mem he)
  rcases List.mem_map.mp hmem with ⟨e', _, heq⟩
  exact (List.getElem?_eq_some_iff.mp (congrArg Prod.fst heq).symm).1

theorem extend (h : RowMeans terms row acc) (hpre : terms <+: terms') :
    RowMeans terms' row acc where
  sorted := h.sorted
  terms := by
    rcases hpre with ⟨tail, rfl⟩
    have hmap : (row.map fun e => ((terms ++ tail)[e.1.toNat]?, e.2)) =
        row.map fun e => (terms[e.1.toNat]?, e.2) := by
      apply map_congr_left
      intro e he
      rw [getElem?_append_left (h.lt_length he)]
    rw [hmap]
    exact h.terms

theorem length_le (h : RowMeans terms row acc) :
    row.length ≤ terms.length := by
  have hnodup : (row.map fun e => e.1.toNat).Nodup := by
    rw [List.Nodup, pairwise_map]
    apply h.sorted.imp
    intro a b hlt heq
    rw [lt_iff_toNat_lt] at hlt
    omega
  have hsub : (row.map fun e => e.1.toNat) ⊆ range terms.length := by
    intro n hn
    rcases mem_map.mp hn with ⟨e, he, rfl⟩
    exact mem_range.mpr (h.lt_length he)
  have hle := (subperm_of_subset hnodup hsub).length_le
  rwa [length_map, length_range] at hle

end RowMeans

/-!
# The loop of `index_by_terms`
-/

section Loop

variable [Add value]

private theorem map_fst_addUp (acc : List (TermKey × value))
    (item : TermKey × value) :
    (addUp acc item).map Prod.fst =
      if item.1 ∈ acc.map Prod.fst then acc.map Prod.fst
      else acc.map Prod.fst ++ [item.1] := by
  rw [addUp]
  split
  next =>
    rw [map_map]
    apply map_congr_left
    intro e _
    show (if e.1 = item.1 then (e.1, e.2 + item.2) else e).1 = e.1
    split
    · rfl
    · rfl
  next => rw [map_append, map_singleton]

/-- What the loop has done after some of the items. -/
structure IndexLoopOk (start vocabulary : List TermKey)
    (acc : List (TermKey × value))
    (st : SparseRowIndex.IndexLoop value) : Prop where
  terms : Numbered st.indexTerm st.termIndex
  count : st.termIndex.bindings.length = st.indexTerm.length
  extended : start <+: st.indexTerm
  vocabulary : st.indexTerm ⊆ vocabulary
  added : Numbered (acc.map Prod.fst) st.addTermSet
  known : forall k, k ∈ acc.map Prod.fst -> st.termIndex.find k ≠ none
  indices : st.indices =
    acc.map fun e => (st.termIndex.find e.1).getD 0
  values : st.values = acc.map Prod.snd

namespace IndexLoopOk

variable {start vocabulary : List TermKey} {acc : List (TermKey × value)}
  {st : SparseRowIndex.IndexLoop value}

variable {key : TermKey}

omit [Add value] in
theorem addTerm (h : IndexLoopOk start vocabulary acc st)
    (hkey : key ∈ vocabulary) :
    IndexLoopOk start vocabulary acc (st.addTerm key) ∧
      (st.addTerm key).termIndex.find key ≠ none := by
  cases hfind : st.termIndex.find key with
  | some i =>
    have hsame : st.addTerm key = st := by
      rw [SparseRowIndex.IndexLoop.addTerm, hfind]
    rw [hsame, hfind]
    exact ⟨h, by simp⟩
  | none =>
    have hnew : st.addTerm key =
        { st with
          termIndex := st.termIndex.put key (ofNat st.indexTerm.length)
          indexTerm := st.indexTerm ++ [key] } := by
      rw [SparseRowIndex.IndexLoop.addTerm, hfind, h.count]
    rw [hnew]
    constructor
    · have hold : forall k, k ∈ acc.map Prod.fst -> k ≠ key := by
        intro k hk heq
        exact h.known k hk (heq ▸ hfind)
      constructor
      · exact h.terms.push hfind
      · rw [length_bindings_put _ hfind, h.count,
          length_append, length_singleton]
      · exact h.extended.trans (prefix_append _ _)
      · intro k hk
        rcases mem_append.mp hk with hk | hk
        · exact h.vocabulary hk
        · rw [mem_singleton.mp hk]
          exact hkey
      · exact h.added
      · intro k hk
        rw [find_put_ne _ _ (hold k hk)]
        exact h.known k hk
      · rw [h.indices]
        apply map_congr_left
        intro e he
        rw [find_put_ne _ _ (hold e.1 (mem_map_of_mem he))]
      · exact h.values
    · simp

private theorem values_modify (hadded : Numbered (acc.map Prod.fst) m)
    {n : Nat} (hn : (acc.map Prod.fst)[n]? = some key)
    (val : value) :
    (acc.map Prod.snd).modify n (· + val) =
      (addUp acc (key, val)).map Prod.snd := by
  have hmem : key ∈ acc.map Prod.fst := List.mem_of_getElem? hn
  rw [addUp, if_pos hmem]
  apply List.ext_getElem?
  intro j
  rw [List.getElem?_modify, List.getElem?_map, List.getElem?_map,
    List.getElem?_map]
  cases hj : acc[j]? with
  | none => rfl
  | some e =>
    have hkey : (acc.map Prod.fst)[j]? = some e.1 := by
      rw [List.getElem?_map, hj]
      rfl
    by_cases hnj : n = j
    · subst hnj
      rw [hn] at hkey
      simp [Option.some.inj hkey]
    · have hne : e.1 ≠ key := by
        intro heq
        rw [heq] at hkey
        have hlt := (List.getElem?_eq_some_iff.mp hn).1
        exact hnj ((List.getElem?_inj hlt hadded.nodup).mp (hn.trans hkey.symm))
      simp [hnj, hne]

theorem addValue (h : IndexLoopOk start vocabulary acc st)
    (hlen : vocabulary.length < 2 ^ 32) {val : value}
    (hkey : st.termIndex.find key ≠ none) :
    IndexLoopOk start vocabulary (addUp acc (key, val))
      (st.addValue key val) := by
  have hfst := map_fst_addUp acc (key, val)
  have hacc : (acc.map Prod.fst).length < 2 ^ 32 := by
    have hsub : acc.map Prod.fst ⊆ vocabulary := by
      intro k hk
      exact h.vocabulary (h.terms.known k (h.known k hk))
    have hle := (subperm_of_subset h.added.nodup hsub).length_le
    omega
  cases hfind : st.addTermSet.find key with
  | some i =>
    have hmem : key ∈ acc.map Prod.fst := h.added.known key (by simp [hfind])
    have hplace := h.added.getElem?_number hacc hfind
    rw [if_pos hmem] at hfst
    have hout : st.addValue key val =
        { st with values := st.values.modify i.toNat (· + val) } := by
      rw [SparseRowIndex.IndexLoop.addValue, hfind]
    rw [hout]
    constructor
    · exact h.terms
    · exact h.count
    · exact h.extended
    · exact h.vocabulary
    · rw [hfst]
      exact h.added
    · rw [hfst]
      exact h.known
    · have hcongr : forall l : List (TermKey × value),
          (l.map fun e => (st.termIndex.find e.1).getD 0) =
            (l.map Prod.fst).map fun k => (st.termIndex.find k).getD 0 := by
        intro l
        rw [map_map]
        rfl
      rw [hcongr, hfst, ← hcongr]
      exact h.indices
    · show st.values.modify i.toNat (· + val) = _
      rw [h.values]
      exact values_modify h.added hplace val
  | none =>
    have hmem : key ∉ acc.map Prod.fst := h.added.notMem hfind
    rw [if_neg hmem] at hfst
    have hadd : addUp acc (key, val) = acc ++ [(key, val)] := by
      rw [addUp, if_neg hmem]
    have hlength : st.indices.length = (acc.map Prod.fst).length := by
      rw [h.indices, length_map, length_map]
    have hout : st.addValue key val =
        { st with
          addTermSet := st.addTermSet.put key
            (ofNat (acc.map Prod.fst).length)
          indices := st.indices ++ [(st.termIndex.find key).getD 0]
          values := st.values ++ [val] } := by
      rw [SparseRowIndex.IndexLoop.addValue, hfind, hlength]
    rw [hout]
    constructor
    · exact h.terms
    · exact h.count
    · exact h.extended
    · exact h.vocabulary
    · rw [hfst]
      exact h.added.push hfind
    · intro k hk
      rw [hfst] at hk
      rcases mem_append.mp hk with hk | hk
      · exact h.known k hk
      · rw [mem_singleton.mp hk]
        exact hkey
    · rw [hadd, map_append, ← h.indices]
      rfl
    · rw [hadd, map_append, ← h.values]
      rfl

theorem foldl (h : IndexLoopOk start vocabulary acc st)
    (hlen : vocabulary.length < 2 ^ 32) (items : List (TermKey × value))
    (hitems : items.map Prod.fst ⊆ vocabulary) :
    IndexLoopOk start vocabulary (items.foldl addUp acc)
      (items.foldl SparseRowIndex.IndexLoop.body st) := by
  induction items generalizing acc st with
  | nil => exact h
  | cons item rest ih =>
    rw [map_cons, cons_subset] at hitems
    have hterm := h.addTerm hitems.1
    exact ih (hterm.1.addValue hlen hterm.2) hitems.2

omit [Add value] in
/-- The sorted entries stand for the keys with their sums. -/
theorem rowMeans (h : IndexLoopOk start vocabulary acc st)
    (hlen : vocabulary.length < 2 ^ 32) :
    exists row, zipSort st.indices st.values =
        ofEntries row ∧
      RowMeans st.indexTerm row acc := by
  have hterms : st.indexTerm.length < 2 ^ 32 := by
    have hle := (subperm_of_subset h.terms.nodup h.vocabulary).length_le
    omega
  have hzip : st.indices.zip st.values =
      acc.map fun e => ((st.termIndex.find e.1).getD 0, e.2) := by
    rw [h.indices, h.values, zip_map']
  have hdecode : forall e, e ∈ acc ->
      st.indexTerm[((st.termIndex.find e.1).getD 0).toNat]? = some e.1 := by
    intro e he
    cases hfind : st.termIndex.find e.1 with
    | none => exact absurd hfind (h.known e.1 (mem_map_of_mem he))
    | some i => exact h.terms.getElem?_number hterms hfind
  refine ⟨_, rfl, ?_, ?_⟩
  · have hdistinct : (st.indices.zip st.values).Pairwise
        fun a b => a.1 ≠ b.1 := by
      rw [hzip, pairwise_map]
      have hnodup := h.added.nodup
      rw [List.Nodup, pairwise_map] at hnodup
      apply hnodup.imp_of_mem
      intro a b ha hb hne heq
      apply hne
      have hkeys := hdecode a ha
      rw [show (st.termIndex.find a.1).getD 0 =
        (st.termIndex.find b.1).getD 0 from heq, hdecode b hb] at hkeys
      exact (Option.some.inj hkeys).symm
    have hperm := mergeSort_perm (st.indices.zip st.values)
      fun a b => decide (a.1 ≤ b.1)
    have hne := hperm.symm.pairwise hdistinct (fun hab => Ne.symm hab)
    have hle := @List.pairwise_mergeSort _
      (fun a b : IndexT × value => decide (a.1 ≤ b.1))
      (by
        intro a b c hab hbc
        exact decide_eq_true (UInt32.le_trans (of_decide_eq_true hab)
          (of_decide_eq_true hbc)))
      (by
        intro a b
        simpa using UInt32.le_total a.1 b.1)
      (st.indices.zip st.values)
    apply (hle.and hne).imp
    intro a b hab
    exact UInt32.lt_of_le_of_ne (of_decide_eq_true hab.1) hab.2
  · have hperm := mergeSort_perm (st.indices.zip st.values)
      fun a b => decide (a.1 ≤ b.1)
    refine (hperm.map _).trans ?_
    rw [hzip, map_map]
    apply List.Perm.of_eq
    apply map_congr_left
    intro e he
    show (st.indexTerm[((st.termIndex.find e.1).getD 0).toNat]?, e.2) =
      (some e.1, e.2)
    rw [hdecode e he]

end IndexLoopOk

end Loop

/-!
# What the calls do
-/

/-- The index keeps these rows and numbers its terms in order. -/
structure SparseOk (s : SparseRowIndex value)
    (rows : List (List (IndexT × value))) : Prop where
  finish : s.finishPopulateTerms = true
  terms : Numbered s.indexTerm s.termIndex
  count : s.termIndex.bindings.length = s.indexTerm.length
  data : s.sparseDataset.Holds rows

namespace SparseOk

variable {s : SparseRowIndex value} {rows : List (List (IndexT × value))}

theorem initEmptyData :
    SparseOk (new : SparseRowIndex value).initEmptyData [] where
  finish := rfl
  terms := Numbered.empty
  count := rfl
  data := SparseDataset.holds_empty

theorem rows_eq (h : SparseOk s rows) : s.rows = rows.length :=
  h.data.size

theorem makeSparsePoint [Add value] {term : Type} (hash : term -> TermKey)
    (h : SparseOk s rows) {vocabulary : List TermKey}
    (hsub : s.indexTerm ⊆ vocabulary) (hlen : vocabulary.length < 2 ^ 32)
    {sparse : LowLevelSparse term value} {rawTerms : List term}
    (hraw : sparse.rawTerms = some rawTerms)
    (hsize : rawTerms.length = sparse.values.length)
    (hterms : rawTerms.map hash ⊆ vocabulary) :
    exists row s', s.makeSparsePoint hash sparse =
        (0, some (ofEntries row), s') ∧
      SparseOk s' rows ∧ s.indexTerm <+: s'.indexTerm ∧
      s'.indexTerm ⊆ vocabulary ∧
      RowMeans s'.indexTerm row
        (accumulate ((rawTerms.map hash).zip sparse.values)) := by
  have hstart : IndexLoopOk s.indexTerm vocabulary ([] : List (TermKey × value))
      { termIndex := s.termIndex
        indexTerm := s.indexTerm
        addTermSet := ∅
        indices := []
        values := [] } := by
    constructor
    · exact h.terms
    · exact h.count
    · exact prefix_refl _
    · exact hsub
    · exact Numbered.empty
    · nofun
    · rfl
    · rfl
  have hitems :
      ((rawTerms.map hash).zip sparse.values).map Prod.fst ⊆ vocabulary := by
    rw [map_fst_zip (by rw [length_map, hsize])]
    exact hterms
  have hend := hstart.foldl hlen _ hitems
  generalize hst : foldl (@SparseRowIndex.IndexLoop.body value _)
    _ _ = st at hend
  rcases hend.rowMeans hlen with ⟨row, hrow, hmeans⟩
  refine ⟨row,
    { s with termIndex := st.termIndex, indexTerm := st.indexTerm },
    ?_, ?_, hend.extended, hend.vocabulary, hmeans⟩
  · rw [SparseRowIndex.makeSparsePoint, hraw]
    show (if rawTerms.length ≠ sparse.values.length then _ else _) = _
    rw [if_neg (by simp [hsize])]
    simp [SparseRowIndex.indexByTerms, hsize, h.finish, hst, hrow]
  · exact ⟨h.finish, hend.terms, hend.count, h.data⟩

theorem append (h : SparseOk s rows) (row : List (IndexT × value)) :
    exists s', s.append (ofEntries row) = (0, s') ∧
      SparseOk s' (rows ++ [row]) ∧ s'.indexTerm = s.indexTerm := by
  rcases h.data.append row with ⟨d, hd, hholds⟩
  refine ⟨{ s with sparseDataset := d }, ?_,
    ⟨h.finish, h.terms, h.count, hholds⟩, rfl⟩
  rw [SparseRowIndex.append, hd]

theorem update [Zero value] (h : SparseOk s rows) {i : Nat}
    (hi : i < rows.length) (row : List (IndexT × value)) :
    exists s', s.update i (ofEntries row) = .ok (0, s') ∧
      SparseOk s' (rows.set i row) ∧ s'.indexTerm = s.indexTerm := by
  rcases h.data.update hi row with ⟨d, hd, hholds⟩
  refine ⟨{ s with sparseDataset := d }, ?_,
    ⟨h.finish, h.terms, h.count, hholds⟩, rfl⟩
  rw [SparseRowIndex.update, hd]

theorem popBack (h : SparseOk s rows) (hne : rows ≠ []) :
    SparseOk s.popBack rows.dropLast :=
  ⟨h.finish, h.terms, h.count, h.data.popBack hne⟩

end SparseOk

/-!
# Files
-/

/-- The records of rows that begin at a number. -/
def recordsFrom : Nat -> List (List (IndexT × value)) -> List (RowRecord value)
  | _, [] => []
  | i, row :: rest =>
    SparseRowIndex.serializeRow i (SparseDatapoint.ofEntries row) ::
      recordsFrom (i + 1) rest

private theorem mapM_rows {α : Type} (f : Nat -> Except RuntimeError α)
    (g : Nat -> α) (start n : Nat)
    (hf : forall i, start ≤ i -> i < start + n -> f i = .ok (g i)) :
    (range' start n).mapM f = .ok ((range' start n).map g) := by
  induction n generalizing start with
  | zero => rfl
  | succ n ih =>
    rw [range'_succ, mapM_cons, hf start (Nat.le_refl _) (by omega)]
    show ((range' (start + 1) n).mapM f >>= fun rest =>
      pure (g start :: rest)) = _
    rw [ih (start + 1) (fun i hi hlt => hf i (by omega) (by omega))]
    rfl

private theorem map_range'_recordsFrom (rows : List (List (IndexT × value)))
    (start : Nat) :
    ((range' start rows.length).map fun i =>
        serializeRow i
          (ofEntries (rows.getD (i - start) []))) =
      recordsFrom start rows := by
  induction rows generalizing start with
  | nil => rfl
  | cons row rest ih =>
    rw [length_cons, range'_succ, map_cons, recordsFrom, ← ih]
    simp only [Nat.sub_self, getD_cons_zero]
    congr 1
    apply map_congr_left
    intro i hi
    have hle := (mem_range'_1.mp hi).1
    rw [show i - start = (i - (start + 1)) + 1 by omega, getD_cons_succ]

variable {rows : List (List (IndexT × value))}

theorem SparseOk.saveData {s : SparseRowIndex value} (h : SparseOk s rows)
    (hrows : rows.length < 2 ^ 32) :
    exists file, s.saveData = .ok (0, some file) ∧
      file.cols = s.indexTerm.length ∧ file.terms = s.indexTerm ∧
      file.records = recordsFrom 0 rows := by
  have hall : s.saveRows = .ok (recordsFrom 0 rows) := by
    rw [SparseRowIndex.saveRows, h.rows_eq, range_eq_range',
      ← map_range'_recordsFrom rows 0]
    apply mapM_rows
    intro i _ hi
    rw [Nat.zero_add] at hi
    rw [SparseRowIndex.getRow, h.data.getRow hi]
    rw [Nat.sub_zero, getD_eq_getElem?_getD,
      getElem?_eq_getElem hi, Option.getD_some]
  refine ⟨
    { rows := rows.length
      cols := s.indexTerm.length
      avgEntries :=
        if 0 < rows.length then s.sparseDataset.entries / rows.length + 1
        else 50
      terms := s.indexTerm
      records := recordsFrom 0 rows }, ?_, rfl, rfl, rfl⟩
  rw [SparseRowIndex.saveData, hall, h.finish, h.rows_eq]
  simp only [Bool.not_true, Bool.false_eq_true, if_false]
  rw [if_neg (by omega)]

private theorem loadTerms_new (keys done : List TermKey)
    (s : SparseRowIndex value) (hnodup : (done ++ keys).Nodup)
    (hterms : Numbered done s.termIndex) (hdone : s.indexTerm = done)
    (hcount : s.termIndex.bindings.length = done.length) :
    exists s', s.loadTerms done.length keys = (true, s') ∧
      Numbered (done ++ keys) s'.termIndex ∧ s'.indexTerm = done ++ keys ∧
      s'.termIndex.bindings.length = (done ++ keys).length ∧
      s'.sparseDataset = s.sparseDataset := by
  induction keys generalizing done s with
  | nil =>
    refine ⟨s, rfl, ?_, ?_, ?_, rfl⟩
    · rwa [append_nil]
    · rwa [append_nil]
    · rwa [append_nil]
  | cons key rest ih =>
    have hnew : s.termIndex.find key = none := by
      by_contra hne
      have hmem := hterms.known key hne
      exact (nodup_append.mp hnodup).2.2 key hmem key (by simp) rfl
    have happ : done ++ key :: rest = done ++ [key] ++ rest := by simp
    rw [happ] at hnodup ⊢
    have hnext := ih (done ++ [key])
      { s with
        termIndex := s.termIndex.put key (ofNat done.length)
        indexTerm := s.indexTerm ++ [key] }
      hnodup (hterms.push hnew) (by rw [hdone])
      (by
        rw [length_bindings_put _ hnew, hcount, length_append,
          length_singleton])
    rw [loadTerms, hnew]
    simpa using hnext

private theorem loadRows_recordsFrom {cols : Nat}
    (todo done : List (List (IndexT × value))) (s : SparseRowIndex value)
    (h : SparseOk s done)
    (hlen : done.length + todo.length < 2 ^ 32)
    (hcols : forall row, row ∈ todo -> row.length ≤ cols)
    (hbound : cols < 2 ^ 32) :
    exists s', loadRows cols s done.length
        (recordsFrom done.length todo) = (0, s') ∧
      SparseOk s' (done ++ todo) ∧ s'.indexTerm = s.indexTerm := by
  induction todo generalizing done s with
  | nil =>
    refine ⟨s, rfl, ?_, rfl⟩
    rwa [append_nil]
  | cons row rest ih =>
    rw [length_cons] at hlen
    have hrow : row.length ≤ cols := hcols row mem_cons_self
    have hnum : (ofNat row.length).toNat = row.length := by
      rw [toNat_ofNat', Nat.mod_eq_of_lt (by omega)]
    have hidx : (ofNat done.length).toNat = done.length := by
      rw [toNat_ofNat', Nat.mod_eq_of_lt (by omega)]
    have hrecord : serializeRow done.length
          (ofEntries row) =
        ⟨ofNat done.length, ofNat row.length,
          row.map Prod.fst, row.map Prod.snd⟩ := by
      simp [serializeRow, ofEntries, hnum,
        take_of_length_le]
    rcases h.append row with ⟨s1, hs1, hok, hterm⟩
    have hdp : (⟨row.map Prod.fst, row.map Prod.snd⟩ :
        SparseDatapoint value) = ofEntries row := rfl
    have hnext := ih (done ++ [row]) s1 hok
      (by
        rw [length_append, length_singleton]
        omega)
      (fun r hr => hcols r (mem_cons_of_mem _ hr))
    rw [length_append, length_singleton, append_assoc,
      singleton_append, hterm] at hnext
    rw [recordsFrom, hrecord, loadRows]
    simp only [hidx, hnum, ne_eq, not_true, if_false]
    rw [if_neg (by omega), hdp, hs1]
    exact hnext

theorem SparseOk.loadData {s : SparseRowIndex value} (h : SparseOk s rows)
    {terms : List TermKey} (hnone : s.indexTerm = [])
    (hterms : terms.Nodup) (hlen : terms.length < 2 ^ 32)
    {saved : List (List (IndexT × value))} (hsaved : saved.length < 2 ^ 32)
    (hrows : forall row, row ∈ saved -> row.length ≤ terms.length)
    {file : SparseFile value} (hcols : file.cols = terms.length)
    (hfile : file.terms = terms)
    (hrecords : file.records = recordsFrom 0 saved) :
    exists s', s.loadData (some file) = (0, s') ∧ SparseOk s' saved ∧
      s'.indexTerm = terms := by
  have hempty : Numbered [] s.termIndex := hnone ▸ h.terms
  have hzero : s.termIndex.bindings.length = ([] : List TermKey).length := by
    rw [h.count, hnone]
  rcases loadTerms_new terms []
    ({ s with sparseDataset := SparseDataset.empty } : SparseRowIndex value)
    (by simpa using hterms) hempty hnone hzero with
    ⟨s1, hs1, hnum, hindex, hcount, hdata⟩
  have hok : SparseOk
      ({ s1 with finishPopulateTerms := true } : SparseRowIndex value) [] := by
    constructor
    · rfl
    · rw [nil_append] at hnum hindex
      show Numbered s1.indexTerm s1.termIndex
      rw [hindex]
      exact hnum
    · show s1.termIndex.bindings.length = s1.indexTerm.length
      rw [hcount, hindex]
    · show s1.sparseDataset.Holds []
      rw [hdata]
      exact SparseDataset.holds_empty
  have hwide : forall row, row ∈ saved -> row.length ≤ file.cols := by
    intro row hrow
    rw [hcols]
    exact hrows row hrow
  rcases loadRows_recordsFrom saved [] _ hok (by simpa using hsaved) hwide
    (by rw [hcols]; exact hlen) with ⟨s2, hs2, hsok, hterm⟩
  refine ⟨s2, ?_, hsok, ?_⟩
  · rw [length_nil] at hs1 hs2
    rw [SparseRowIndex.loadData]
    simp only [hfile, hs1, hrecords]
    exact hs2
  · rw [hterm]
    simpa using hindex

end Vector
end OpenViking
