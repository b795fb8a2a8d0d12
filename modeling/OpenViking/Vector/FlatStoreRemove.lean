import OpenViking.Vector.FlatStoreAdd

/-!
# Removing a point

The last row moves into the hole, with both of its map entries and its sparse
row.
-/

namespace OpenViking
namespace Vector

open Paths Places FlatStore List Option

variable {term vec enc value : Type}

variable {srows : List (List (IndexT × value))}

theorem SparsePart.popBack {enable : Bool}
    {sparse : Option (SparseRowIndex value)}
    (h : SparsePart enable sparse srows) (hne : srows ≠ []) :
    SparsePart enable (sparse.map SparseRowIndex.popBack) srows.dropLast := by
  cases sparse with
  | none => exact h
  | some s => exact ⟨h.1, h.2.popBack hne⟩

variable {n : Nat} {s : FlatStore enc value}

theorem moveSparse_spec [Zero value] {enable : Bool}
    (h : SparsePart enable s.sparseIndex srows)
    (hn : n < srows.length) {last : List (IndexT × value)}
    (hlast : srows[srows.length - 1]? = some last) :
    exists sparse s', s.moveSparse n (srows.length - 1) = (.ok (), s') ∧
      s' = { s with sparseIndex := sparse } ∧ s'.terms = s.terms ∧
      SparsePart enable s'.sparseIndex (srows.set n last) := by
  cases hsparse : s.sparseIndex with
  | none =>
    rw [hsparse] at h
    refine ⟨none, s, ?_, ?_, rfl, ?_⟩
    · simp only [moveSparse, hsparse]
    · rw [← hsparse]
    · rw [hsparse]
      exact h
  | some sparse =>
    rw [hsparse] at h
    have hlt : srows.length - 1 < srows.length := by omega
    rw [getElem?_eq_getElem hlt] at hlast
    have hget : sparse.getRow (srows.length - 1) =
        .ok (SparseDatapoint.ofEntries last) := by
      rw [SparseRowIndex.getRow, h.2.data.getRow hlt, some.inj hlast]
    rcases h.2.update hn last with ⟨s', hs', hok, hindex⟩
    refine ⟨some s', { s with sparseIndex := some s' }, ?_, rfl, ?_, ⟨h.1, hok⟩⟩
    · simp only [moveSparse, hsparse, hget, hs']
    · simp only [terms, hsparse, hindex]

variable {c : Catalog enc value} {cfg : Config term vec enc}
  {rows : List (Row enc value)} {terms : List TermKey}

theorem Lists.remove
    (h : Lists cfg terms rows c) (hnodup : (rows.map Row.label).Nodup)
    {old : Row enc value} (hn : rows[n]? = some old) :
    Lists cfg terms (swapRemove rows n) (c.remove old.label) := by
  have hlt := (List.getElem?_eq_some_iff.mp hn).1
  have hold : rows[n] = old := by
    rw [List.getElem?_eq_getElem hlt] at hn
    exact some.inj hn
  have hmem : forall row, row ∈ swapRemove rows n <-> row ∈ rows ∧ row ≠ old := by
    intro row
    rw [mem_swapRemove hlt (List.Nodup.of_map _ hnodup), hold]
  have hin : old ∈ rows := List.mem_of_getElem? hn
  constructor
  · intro row hrow
    rcases (hmem row).mp hrow with ⟨hrows, hne⟩
    rcases h.row row hrows with ⟨e, hlive, hdesc⟩
    refine ⟨e, ?_, hdesc⟩
    rw [← hlive]
    apply Function.update_of_ne
    intro heq
    exact hne (List.inj_on_of_nodup_map hnodup hrows hin heq)
  · intro label e hlive
    simp only [Catalog.remove, Function.update_apply] at hlive
    split at hlive
    next => cases hlive
    next hne =>
      rcases List.mem_map.mp (h.live label e hlive) with ⟨row, hrow, heq⟩
      refine List.mem_map.mpr ⟨row, (hmem row).mpr ⟨hrow, ?_⟩, heq⟩
      intro hsame
      rw [hsame] at heq
      exact hne heq.symm

private theorem placed_move {key : Type} [DecidableEq key] {keys : List key}
    {m : Assoc key Int} (h : Placed keys m) {gone last : key}
    (hn : keys[n]? = some gone) (hlast : keys[keys.length - 1]? = some last)
    (hne : n ≠ keys.length - 1) :
    Placed (swapRemove keys n) ((m.del gone).put last (n : Int)) := by
  have hlt := (List.getElem?_eq_some_iff.mp hn).1
  apply h.swapRemove hlt
  intro k
  have hdiff : gone ≠ last := by
    intro heq
    rw [heq, ← hlast] at hn
    exact hne ((List.getElem?_inj hlt h.nodup).mp hn)
  rw [Assoc.find_put, Assoc.find_del, hn, hlast]
  by_cases hk : k = last
  · rw [if_pos hk, if_neg (by rw [hk]; exact fun he => hdiff (some.inj he)),
      if_pos (by rw [hk])]
  · rw [if_neg hk]
    by_cases hg : k = gone
    · rw [if_pos hg, if_pos (by rw [hg])]
    · rw [if_neg hg, if_neg (fun he => hg (some.inj he).symm),
        if_neg (fun he => hk (some.inj he).symm)]

private theorem placed_drop {key : Type} [DecidableEq key] {keys : List key}
    {m : Assoc key Int} (h : Placed keys m) {gone : key}
    (hn : keys[keys.length - 1]? = some gone) :
    Placed (swapRemove keys (keys.length - 1)) (m.del gone) := by
  have hlt := (List.getElem?_eq_some_iff.mp hn).1
  apply h.swapRemove hlt
  intro k
  rw [Assoc.find_del, hn]
  by_cases hg : k = gone
  · rw [if_pos hg, if_pos (by rw [hg])]
  · have hne : ¬ some gone = some k := fun he => hg (some.inj he).symm
    rw [if_neg hg, if_neg hne, if_neg hne]

variable {s' : FlatStore enc value}

theorem terms_popBack
    (h : s'.sparseIndex = s.sparseIndex.map SparseRowIndex.popBack) :
    s'.terms = s.terms := by
  rw [terms, terms, h]
  cases s.sparseIndex with
  | none => rfl
  | some sparse => rfl

theorem StoreOk.remove (h : StoreOk cfg s rows) {last : Row enc value}
    (hn : n < rows.length) (hlast : rows[rows.length - 1]? = some last)
    (hcount : s'.currentCount = s.currentCount - 1)
    (hcapacity : s'.capacity = s.capacity)
    (hbuffer : s'.buffer = s.buffer.set n last.cell)
    (hlabels : Placed (Places.swapRemove (rows.map Row.label) n) s'.labelMap)
    (hoffsets : Placed (Places.swapRemove (rows.map Row.offset) n)
      s'.offsetMap)
    (hpart : SparsePart cfg.enableSparse s'.sparseIndex
      (Places.swapRemove (rows.map Row.sparse) n)) :
    StoreOk cfg s' (Places.swapRemove rows n) where
  count := by
    rw [hcount, h.count, length_swapRemove]
  room := by
    have hroom := h.room
    rw [length_swapRemove, hcapacity]
    omega
  memory := by
    rw [hbuffer, length_set, hcapacity]
    exact h.memory
  cells := by
    intro j row hj
    have hroom := h.room
    have hmemory := h.memory
    rw [getElem?_swapRemove hn] at hj
    split at hj
    next => cases hj
    next hlt =>
      rw [hbuffer]
      split at hj
      next heq =>
        rw [hlast] at hj
        rw [heq, getElem?_set_self (by omega), some.inj hj]
      next hne =>
        rw [getElem?_set_ne (Ne.symm hne)]
        exact h.cells j row hj
  labels := by
    rw [map_swapRemove]
    exact hlabels
  offsets := by
    rw [map_swapRemove]
    exact hoffsets
  sparse := by
    rw [map_swapRemove]
    exact hpart

theorem moveElement_eq {k : Nat} {moved : Cell enc} (hcell : s.cell cfg k = moved)
    (hn : n < 2 ^ 31) :
    s.moveElement cfg n k =
      { s with
        buffer := s.buffer.set n moved
        labelMap := s.labelMap.put moved.label n
        offsetMap := s.offsetMap.put moved.offset n } := by
  rw [moveElement, hcell, toInt_of_lt hn]

/-- The removal of a live label takes one row out. -/
theorem remove_agrees [Zero value] (h : Agrees cfg s c rows)
    (hcount : rows.length < 2 ^ 31) {old : Row enc value}
    (hn : rows[n]? = some old) :
    exists s', s.removePoint cfg old.label = (.ok (), s') ∧
      Agrees cfg s' (c.remove old.label) (Places.swapRemove rows n) ∧
      s'.terms = s.terms := by
  have hlt := (List.getElem?_eq_some_iff.mp hn).1
  have hlength := h.store.count
  have hlabel : (rows.map Row.label)[n]? = some old.label := by
    rw [List.getElem?_map, hn]
    rfl
  have hoffset : (rows.map Row.offset)[n]? = some old.offset := by
    rw [List.getElem?_map, hn]
    rfl
  have hfind := h.store.labels.place hlabel
  have hlists := h.lists.remove h.store.labels.nodup hn
  have hcell := h.store.cell hn
  have hlastlt : rows.length - 1 < rows.length := by omega
  have hlast := List.getElem?_eq_getElem hlastlt
  generalize rows[rows.length - 1] = last at hlast
  have hmap : forall {α : Type} (f : Row enc value -> α),
      (rows.map f)[(rows.map f).length - 1]? = some (f last) := by
    intro α f
    rw [List.length_map, List.getElem?_map, hlast]
    rfl
  have hsparseLast : (rows.map Row.sparse).getLast? = some last.sparse := by
    rw [List.getLast?_eq_getElem?]
    exact hmap Row.sparse
  have hne : rows.map Row.sparse ≠ [] := by
    intro hnil
    have := congrArg List.length hnil
    simp only [List.length_map, List.length_nil] at this
    omega
  have hpos : 0 < s.currentCount := by omega
  rw [removePoint, hfind]
  simp only [toSize_natCast (by omega : n < 2 ^ 31), hcell]
  by_cases hend : n = s.currentCount - 1
  · -- the last row is dropped where it stands
    have hsame : last = old := by
      rw [hend, hlength, hlast] at hn
      exact some.inj hn
    have hn' : n = rows.length - 1 := by omega
    rw [if_neg (by simp [hend])]
    refine ⟨_, rfl, ⟨h.store.remove hlt hlast rfl rfl ?_ ?_ ?_ ?_, ?_, h.next⟩,
      ?_⟩
    · show s.buffer = s.buffer.set n last.cell
      have hbuf := h.store.cells n old hn
      have hbufLt := (List.getElem?_eq_some_iff.mp hbuf).1
      rw [List.getElem?_eq_getElem hbufLt] at hbuf
      rw [hsame, ← some.inj hbuf, List.set_getElem_self]
    · have hdrop := placed_drop h.store.labels (hmap Row.label)
      rw [List.length_map, ← hn', hsame] at hdrop
      exact hdrop
    · have hdrop := placed_drop h.store.offsets (hmap Row.offset)
      rw [List.length_map, ← hn', hsame] at hdrop
      exact hdrop
    · have hpop := h.store.sparse.popBack hne
      rw [← swapRemove_last, List.length_map, ← hn'] at hpop
      exact hpop
    · rw [terms_popBack (s := s) rfl]
      exact hlists
    · exact terms_popBack rfl
  · -- the last row moves into the hole
    have hend' : n ≠ rows.length - 1 := by omega
    rw [if_pos ⟨hpos, hend⟩]
    have hcellLast : s.cell cfg (s.currentCount - 1) = last.cell := by
      rw [hlength]
      exact h.store.cell hlast
    have hmoved := moveSparse_spec (n := n) (s := { s with
        buffer := s.buffer.set n last.cell
        labelMap := (s.labelMap.del old.label).put last.label n
        offsetMap := (s.offsetMap.del old.offset).put last.offset n })
      h.store.sparse (by rw [List.length_map]; exact hlt) (hmap Row.sparse)
    rw [List.length_map, ← hlength] at hmoved
    rcases hmoved with ⟨sparse, s1, hout, hs1, hterms, hpart⟩
    have hmove : (moveElement cfg { s with
          labelMap := s.labelMap.del old.label
          offsetMap := s.offsetMap.del old.cell.offset } n
          (s.currentCount - 1)).moveSparse n (s.currentCount - 1) =
        (.ok (), s1) := by
      rw [moveElement_eq (s := { s with
        labelMap := s.labelMap.del old.label
        offsetMap := s.offsetMap.del old.cell.offset }) hcellLast (by omega)]
      exact hout
    rw [hmove]
    have hpop := hpart.popBack (by
      intro hnil
      have hzero := congrArg List.length hnil
      simp only [List.length_set, List.length_map, List.length_nil] at hzero
      omega)
    rw [← swapRemove_eq n hsparseLast] at hpop
    refine ⟨_, rfl, ⟨h.store.remove hlt hlast ?_ ?_ ?_ ?_ ?_ hpop, ?_, ?_⟩, ?_⟩
    · rw [hs1]
    · rw [hs1]
    · rw [hs1]
    · rw [hs1]
      exact placed_move h.store.labels hlabel (hmap Row.label)
        (by rw [List.length_map]; exact hend')
    · rw [hs1]
      exact placed_move h.store.offsets hoffset (hmap Row.offset)
        (by rw [List.length_map]; exact hend')
    · rw [terms_popBack (s := s1) rfl, hterms]
      exact hlists
    · show s1.nextLogicalOffset = c.next
      rw [hs1]
      exact h.next
    · rw [terms_popBack (s := s1) rfl, hterms]
      rfl

theorem removePoint_agrees [Zero value] (h : Agrees cfg s c rows)
    (hcount : rows.length < 2 ^ 31) (label : Label) :
    exists rows' s', s.removePoint cfg label = (.ok (), s') ∧
      Agrees cfg s' (c.remove label) rows' ∧ s'.terms = s.terms := by
  cases hfind : s.labelMap.find label with
  | some i =>
    rcases h.store.find_label hfind with ⟨n, old, hn, hlabel, _⟩
    rw [← hlabel]
    exact ⟨_, remove_agrees h hcount hn⟩
  | none =>
    have hlive : c.live label = none := by
      cases hl : c.live label with
      | none => rfl
      | some e =>
        have hmem := h.lists.live label e hl
        exact absurd hmem (h.store.labels.find_none.mp hfind)
    have hsame : c.remove label = c := by
      rw [Catalog.remove, Function.update_eq_self_iff.mpr hlive.symm]
    refine ⟨rows, s, ?_, ?_, rfl⟩
    · rw [removePoint, hfind]
    · rw [hsame]
      exact h

/-!
# Saving and loading

A directory keeps the rows as they were when it was saved.  A load reads them
back and builds the two maps anew from the buffer.
-/

/-!
# What a directory keeps
-/

/-- The sparse file of rows over a term table. -/
structure SparseFileOk (terms : List TermKey)
    (srows : List (List (IndexT × value))) (file : SparseFile value) :
    Prop where
  nodup : terms.Nodup
  cols : file.cols = terms.length
  saved : file.terms = terms
  records : file.records = recordsFrom 0 srows

structure FlatFileOk (cfg : Config term vec enc) (rows : List (Row enc value))
    (next : Nat) (file : FlatFile enc) : Prop where
  element : file.elementByteSize = cfg.elementByteSize
  count : file.currentCount = rows.length
  room : rows.length ≤ file.capacity
  memory : file.cells.length = file.capacity
  cells : forall (n : Nat) (row : Row enc value), rows[n]? = some row ->
    file.cells[n]? = some row.cell
  next : file.nextLogicalOffset = some next
  labels : (rows.map Row.label).Nodup
  offsets : (rows.map Row.offset).Nodup

structure DirKeeps (cfg : Config term vec enc) (dir : IndexDir enc value)
    (c : Catalog enc value) (terms : List TermKey)
    (rows : List (Row enc value)) : Prop where
  lists : Lists cfg terms rows c
  flat : exists file, dir.flat = some file ∧ FlatFileOk cfg rows c.next file
  sparse : cfg.enableSparse = true -> exists file,
    dir.sparse = some file ∧ SparseFileOk terms (rows.map Row.sparse) file

theorem save_keeps (h : Agrees cfg s c rows) (hcount : rows.length < 2 ^ 31)
    (dir : IndexDir enc value) :
    exists dir', s.save cfg dir = (.ok (), dir') ∧
      DirKeeps cfg dir' c s.terms rows := by
  have hflat : FlatFileOk cfg rows c.next
      { capacity := s.capacity
        elementByteSize := cfg.elementByteSize
        currentCount := s.currentCount
        cells := s.buffer
        nextLogicalOffset := some s.nextLogicalOffset } := by
    constructor
    · rfl
    · exact h.store.count
    · exact h.store.room
    · exact h.store.memory
    · exact h.store.cells
    · rw [h.next]
    · exact h.store.labels.nodup
    · exact h.store.offsets.nodup
  have hpart := h.store.sparse
  cases hsparse : s.sparseIndex with
  | none =>
    rw [hsparse] at hpart
    refine ⟨{ dir with flat := some _ }, ?_, h.lists, ⟨_, rfl, hflat⟩, ?_⟩
    · rw [save, hsparse]
    · intro henable
      rw [show cfg.enableSparse = false from hpart] at henable
      cases henable
  | some sparse =>
    rw [hsparse] at hpart
    have hterms : s.terms = sparse.indexTerm := by
      rw [terms, hsparse]
    rcases hpart.2.saveData (by rw [length_map]; omega) with
      ⟨file, hsave, hcols, hfile, hrecords⟩
    refine ⟨{ flat := some _, sparse := some file }, ?_, h.lists,
      ⟨_, rfl, hflat⟩, ?_⟩
    · rw [save, hsparse]
      simp only [hsave]
    · intro _
      refine ⟨file, rfl, ?_, ?_, ?_, hrecords⟩
      · rw [hterms]
        exact hpart.2.terms.nodup
      · rw [hcols, hterms]
      · rw [hfile, hterms]

/-!
# Building the maps
-/

/-- The maps over the first rows. -/
structure RebuildOk (rows : List (Row enc value)) (st : FlatStore.RebuildLoop) :
    Prop where
  labels : Placed (rows.map Row.label) st.labelMap
  offsets : Placed (rows.map Row.offset) st.offsetMap
  maxOffset : st.maxOffset = 0 ∨ st.maxOffset ∈ rows.map Row.offset

private theorem nodup_notMem {α : Type} {xs : List α} (h : xs.Nodup)
    (hn : n < xs.length) : xs[n] ∉ xs.take n := by
  intro hmem
  rcases List.getElem?_of_mem hmem with ⟨m, hm⟩
  have hlt := (List.getElem?_eq_some_iff.mp hm).1
  rw [List.length_take] at hlt
  rw [List.getElem?_take_of_lt (by omega), ← List.getElem?_eq_getElem hn] at hm
  have hsame := (List.getElem?_inj (by omega) h).mp hm
  omega

theorem rebuild_ok (hcount : rows.length < 2 ^ 31)
    (hlabels : (rows.map Row.label).Nodup)
    (hoffsets : (rows.map Row.offset).Nodup)
    (hcells : forall (n : Nat) (row : Row enc value), rows[n]? = some row ->
      s.buffer[n]? = some row.cell) {k : Nat} (hk : k ≤ rows.length) :
    RebuildOk (rows.take k)
      ((range k).foldl (FlatStore.RebuildLoop.body cfg s) ⟨∅, ∅, 0⟩) := by
  induction k with
  | zero => exact ⟨Placed.empty, Placed.empty, .inl rfl⟩
  | succ k ih =>
    have hlt : k < rows.length := hk
    have hprev := ih (Nat.le_of_lt hlt)
    have hcell : s.cell cfg k = rows[k].cell := by
      rw [cell, getD_eq_getElem?_getD,
        hcells k _ (getElem?_eq_getElem hlt), getD_some]
    have hlabel : rows[k].label ∉ (rows.take k).map Row.label := by
      have hnew := nodup_notMem hlabels (n := k) (by simpa using hlt)
      rwa [getElem_map, ← map_take] at hnew
    have hoffset : rows[k].offset ∉ (rows.take k).map Row.offset := by
      have hnew := nodup_notMem hoffsets (n := k) (by simpa using hlt)
      rwa [getElem_map, ← map_take] at hnew
    have hlength : (rows.take k).length = k := by
      rw [length_take, Nat.min_eq_left (Nat.le_of_lt hlt)]
    rw [range_succ, foldl_append, foldl_cons, foldl_nil,
      take_succ_eq_append_getElem hlt]
    generalize (range k).foldl (FlatStore.RebuildLoop.body cfg s)
      ⟨∅, ∅, 0⟩ = st at hprev
    rw [FlatStore.RebuildLoop.body, hcell, toInt_of_lt (by omega)]
    constructor
    · have hpush := hprev.labels.push hlabel
      rw [length_map, hlength] at hpush
      rw [map_append]
      exact hpush
    · have hpush := hprev.offsets.push hoffset
      rw [length_map, hlength] at hpush
      rw [map_append]
      exact hpush
    · rw [map_append]
      have hmax : forall m : Offset,
          m = rows[k].offset ∨ m = st.maxOffset -> m = 0 ∨
            m ∈ (rows.take k).map Row.offset ++ [rows[k]].map Row.offset := by
        intro m hm
        cases hm with
        | inl heq =>
          rw [heq]
          exact .inr (mem_append_right _ mem_cons_self)
        | inr heq =>
          rw [heq]
          cases hprev.maxOffset with
          | inl hzero => exact .inl hzero
          | inr hmem => exact .inr (mem_append_left _ hmem)
      apply hmax
      show (if st.maxOffset < rows[k].offset then rows[k].offset
        else st.maxOffset) = _ ∨ (if st.maxOffset < rows[k].offset then
          rows[k].offset else st.maxOffset) = _
      split
      next => exact .inl rfl
      next => exact .inr rfl

/-- The offset counter of a file is not too small, so it is kept. -/
theorem rebuildMaps_ok
    (hlists : Lists cfg terms rows c) (hc : c.Ok) (hnext : c.next < 2 ^ 31)
    (hlabels : (rows.map Row.label).Nodup)
    (hoffsets : (rows.map Row.offset).Nodup)
    (hcount : s.currentCount = rows.length)
    (hcells : forall (n : Nat) (row : Row enc value), rows[n]? = some row ->
      s.buffer[n]? = some row.cell)
    (hcounter : s.nextLogicalOffset = c.next) :
    exists labelMap offsetMap,
      s.rebuildMaps cfg =
        { s with labelMap := labelMap, offsetMap := offsetMap } ∧
      Placed (rows.map Row.label) labelMap ∧
      Placed (rows.map Row.offset) offsetMap := by
  have hle := hlists.length_le hc hoffsets
  have hok := @rebuild_ok _ _ _ _ s cfg rows (by omega) hlabels hoffsets
    hcells _ (Nat.le_refl _)
  rw [take_length] at hok
  rw [rebuildMaps, hcount]
  generalize (range rows.length).foldl (FlatStore.RebuildLoop.body cfg s)
    ⟨∅, ∅, 0⟩ = st at hok
  have hbelow : forall row, row ∈ rows -> row.offset.toNat < c.next := by
    intro row hrow
    rcases hlists.row row hrow with ⟨e, hlive, hdesc⟩
    rw [hdesc.offset]
    exact hc.offset_lt hlive
  have hkeep : ¬ (0 < rows.length ∧
      s.nextLogicalOffset ≤ st.maxOffset.toNat) := by
    intro hbad
    rcases hbad with ⟨hpos, hsmall⟩
    rw [hcounter] at hsmall
    cases hok.maxOffset with
    | inl hzero =>
      have hfirst := hbelow _ (getElem_mem hpos)
      rw [hzero] at hsmall
      have hz : (0 : Offset).toNat = 0 := rfl
      omega
    | inr hmem =>
      rcases mem_map.mp hmem with ⟨row, hrow, heq⟩
      have hlt := hbelow row hrow
      rw [heq] at hlt
      omega
  refine ⟨st.labelMap, st.offsetMap, ?_, hok.labels, hok.offsets⟩
  simp only [if_neg hkeep]

/-!
# Loading
-/

variable {old : List (List (IndexT × value))}

theorem loadSparse_spec
    {dir : IndexDir enc value}
    (h : DirKeeps cfg dir c terms rows)
    (hpart : SparsePart cfg.enableSparse s.sparseIndex old)
    (hfresh : cfg.enableSparse = true -> s.terms = [])
    (hlen : terms.length < 2 ^ 32) (hcount : rows.length < 2 ^ 32)
    (hs' : s'.sparseIndex = s.sparseIndex.map fun sparse =>
      (sparse.loadData dir.sparse).2) :
    SparsePart cfg.enableSparse s'.sparseIndex (rows.map Row.sparse) ∧
      Lists cfg s'.terms rows c ∧ s'.terms ⊆ terms := by
  cases hs : s.sparseIndex with
  | none =>
    rw [hs] at hpart hs'
    have hdense : cfg.enableSparse = false := hpart
    have hterms : s'.terms = [] := by
      rw [FlatStore.terms, hs']
      rfl
    rw [hs', hterms]
    refine ⟨hdense, ⟨?_, h.lists.live⟩, nil_subset _⟩
    intro row hrow
    rcases h.lists.row row hrow with ⟨e, hlive, hdesc⟩
    refine ⟨e, hlive, hdesc.offset, hdesc.vector, ?_⟩
    intro henable
    rw [hdense] at henable
    cases henable
  | some sparse =>
    rw [hs] at hpart hs'
    rcases h.sparse hpart.1 with ⟨file, hfile, hok⟩
    have hnone : sparse.indexTerm = [] := by
      have hempty := hfresh hpart.1
      rwa [FlatStore.terms, hs] at hempty
    have hshort : forall row, row ∈ rows.map Row.sparse ->
        row.length ≤ terms.length := by
      intro row hrow
      rcases mem_map.mp hrow with ⟨r, hr, rfl⟩
      rcases h.lists.row r hr with ⟨e, _, hdesc⟩
      exact (hdesc.sparse hpart.1).length_le
    rcases hpart.2.loadData hnone hok.nodup hlen
      (by rw [length_map]; exact hcount) hshort hok.cols hok.saved
      hok.records with ⟨sparse', hload, hsok, hindex⟩
    rw [hfile, map_some, hload] at hs'
    have hterms : s'.terms = terms := by
      rw [FlatStore.terms, hs']
      exact hindex
    rw [hs', hterms]
    exact ⟨⟨hpart.1, hsok⟩, h.lists, List.Subset.refl _⟩

theorem load_agrees {dir : IndexDir enc value}
    (h : DirKeeps cfg dir c terms rows) (hc : c.Ok) (hnext : c.next < 2 ^ 31)
    (hpart : SparsePart cfg.enableSparse s.sparseIndex old)
    (hfresh : cfg.enableSparse = true -> s.terms = [])
    (hlen : terms.length < 2 ^ 32) :
    exists s', s.load cfg dir = (.ok (), s') ∧ Agrees cfg s' c rows ∧
      s'.terms ⊆ terms := by
  rcases h.flat with ⟨file, hfile, hflat⟩
  have hle := h.lists.length_le hc hflat.offsets
  have hroom := hflat.room
  have hresize : ¬ file.capacity < file.currentCount := by
    rw [hflat.count]
    omega
  have hdrop : ((s.buffer.take file.capacity ++
      replicate (file.capacity - s.buffer.length) cfg.junk).drop
        file.cells.length) = [] := by
    apply drop_of_length_le
    rw [length_append, length_take, length_replicate, hflat.memory]
    omega
  have hrebuild := @rebuildMaps_ok _ _ _ _ { s with
      capacity := file.capacity
      buffer := file.cells
      currentCount := file.currentCount
      nextLogicalOffset := c.next } c cfg rows terms h.lists hc hnext
    hflat.labels hflat.offsets hflat.count hflat.cells rfl
  rcases hrebuild with ⟨labelMap, offsetMap, hmaps, hlabelMap, hoffsetMap⟩
  have hload : s.load cfg dir = (.ok (), {
      capacity := file.capacity
      buffer := file.cells
      currentCount := file.currentCount
      labelMap := labelMap
      offsetMap := offsetMap
      sparseIndex := s.sparseIndex.map fun sparse =>
        (sparse.loadData dir.sparse).2
      nextLogicalOffset := c.next }) := by
    rw [load, hfile]
    simp only [hflat.element, ne_eq, not_true, if_false,
      resizeBuffer, if_neg hresize, hdrop, append_nil,
      hflat.next, getD_some]
    rw [hmaps]
  refine ⟨_, hload, ?_, ?_⟩
  · exact ⟨⟨hflat.count, hroom, hflat.memory, hflat.cells, hlabelMap,
      hoffsetMap, (loadSparse_spec h hpart hfresh hlen (by omega) rfl).1⟩,
      (loadSparse_spec h hpart hfresh hlen (by omega) rfl).2.1, rfl⟩
  · exact (loadSparse_spec h hpart hfresh hlen (by omega) rfl).2.2

end Vector
end OpenViking
