import OpenViking.Common.Interleaving
import OpenViking.Vector.FlatStoreRows

/-!
# Adding a point

A known label has its row written again; a new one gets a row at the end.  The
sparse holder follows row by row.
-/

namespace OpenViking
namespace Vector

open Paths Places Function FlatStore List Option

variable {term vec enc value : Type}

/-!
# The sparse steps
-/

theorem SparsePart.new (cfg : Config term vec enc) (n : Nat) :
    SparsePart cfg.enableSparse
      (FlatStore.new cfg n : FlatStore enc value).sparseIndex [] := by
  rw [FlatStore.new]
  cases henable : cfg.enableSparse with
  | false => rfl
  | true => exact ⟨rfl, SparseOk.initEmptyData⟩

def Made (enable : Bool) (terms : List TermKey)
    (dp : Option (SparseDatapoint value))
    (given : Option (List (TermKey × value))) : Prop :=
  match given with
  | none => dp = none
  | some acc => enable = true ∧ exists row,
      dp = some (SparseDatapoint.ofEntries row) ∧ RowMeans terms row acc

def callTerms (cfg : Config term vec enc)
    (sparseData : Option (LowLevelSparse term value)) : List TermKey :=
  (sparseData.bind LowLevelSparse.rawTerms).elim []
    fun rawTerms => rawTerms.map cfg.hash

variable {cfg : Config term vec enc} {s : FlatStore enc value}
  {srows : List (List (IndexT × value))}

variable {vocabulary : List TermKey}

theorem convertSparse_spec [Add value]
    (h : SparsePart cfg.enableSparse s.sparseIndex srows)
    (hlen : vocabulary.length < 2 ^ 32)
    (hsub : s.terms ⊆ vocabulary)
    (sparseData : Option (LowLevelSparse term value))
    (hterms : callTerms cfg sparseData ⊆ vocabulary) :
    match Ledger.givenSparse cfg sparseData with
    | none => exists e, s.convertSparse cfg sparseData = (.error e, s)
    | some given => exists dp sparse s',
        s.convertSparse cfg sparseData = (.ok dp, s') ∧
        s' = { s with sparseIndex := sparse } ∧
        SparsePart cfg.enableSparse s'.sparseIndex srows ∧
        s.terms <+: s'.terms ∧ s'.terms ⊆ vocabulary ∧
        Made cfg.enableSparse s'.terms dp given := by
  have hkeep : forall given, given = none ->
      s.convertSparse cfg sparseData = (.ok none, s) ->
      exists dp sparse s', s.convertSparse cfg sparseData = (.ok dp, s') ∧
        s' = { s with sparseIndex := sparse } ∧
        SparsePart cfg.enableSparse s'.sparseIndex srows ∧
        s.terms <+: s'.terms ∧ s'.terms ⊆ vocabulary ∧
        Made cfg.enableSparse s'.terms dp given := by
    intro given hgiven hout
    refine ⟨none, s.sparseIndex, s, hout, rfl, h, prefix_refl _, hsub, ?_⟩
    rw [hgiven]
    rfl
  cases hsparse : s.sparseIndex with
  | none =>
    rw [hsparse] at h
    have henable : cfg.enableSparse = false := h
    have hgiven : Ledger.givenSparse cfg sparseData = some none := by
      rw [Ledger.givenSparse.eq_def, henable]
      cases sparseData with
      | none => rfl
      | some data => rfl
    have hout : s.convertSparse cfg sparseData = (.ok none, s) := by
      simp only [convertSparse, hsparse]
    rw [hgiven]
    exact hkeep none rfl hout
  | some sparse =>
    have hpart := h
    rw [hsparse] at hpart
    rcases hpart with ⟨henable, hok⟩
    have hindex : s.terms = sparse.indexTerm := by
      rw [terms, hsparse]
    cases sparseData with
    | none =>
      have hout : s.convertSparse cfg none = (.ok none, s) := by
        simp only [convertSparse, hsparse]
      exact hkeep none rfl hout
    | some data =>
      have hconvert : s.convertSparse cfg (some data) =
          let out := sparse.makeSparsePoint cfg.hash data
          let s := { s with sparseIndex := some out.2.2 }
          if out.1 ≠ 0 then (.error "Sparse data conversion failed", s)
          else (.ok out.2.1, s) := by
        simp only [convertSparse, hsparse]
      have hsame : ({ s with sparseIndex := some sparse } :
          FlatStore enc value) = s := by
        rw [← hsparse]
      rw [Ledger.givenSparse, if_pos henable, hconvert]
      cases hraw : data.rawTerms with
      | none =>
        refine ⟨"Sparse data conversion failed", ?_⟩
        simp [SparseRowIndex.makeSparsePoint, hraw, hsame]
      | some rawTerms =>
        by_cases hsize : rawTerms.length = data.values.length
        · have hcall : rawTerms.map cfg.hash ⊆ vocabulary := by
            simpa [callTerms, hraw] using hterms
          rcases hok.makeSparsePoint cfg.hash (hindex ▸ hsub) hlen hraw
            hsize hcall with ⟨row, s', hs', hok', hpre, hvoc, hmeans⟩
          simp only [hsize, ne_eq, not_true, if_false, hs']
          refine ⟨_, some s', _, rfl, rfl, ⟨henable, hok'⟩, ?_, hvoc,
            henable, row, rfl, hmeans⟩
          rw [hindex]
          exact hpre
        · simp only [ne_eq, hsize, not_false_eq_true, if_true]
          refine ⟨"Sparse data conversion failed", ?_⟩
          simp [SparseRowIndex.makeSparsePoint, hraw, hsize, hsame]

variable {given : Option (List (TermKey × value))}

variable {dp : Option (SparseDatapoint value)} {n : Nat}

theorem updateSparse_spec [Zero value] {enable : Bool}
    (h : SparsePart enable s.sparseIndex srows)
    (hn : n < srows.length)
    (hmade : Made enable s.terms dp given) :
    exists sparse row s', s.updateSparse n dp = (.ok (), s') ∧
      s' = { s with sparseIndex := sparse } ∧ s'.terms = s.terms ∧
      SparsePart enable s'.sparseIndex (srows.set n row) ∧
      (forall acc, given = some acc -> RowMeans s'.terms row acc) ∧
      (given = none -> row = srows[n]) := by
  cases given with
  | none =>
    have hdp : dp = none := hmade
    refine ⟨s.sparseIndex, srows[n], s, ?_, rfl, rfl, ?_, ?_, fun _ => rfl⟩
    · rw [hdp]
      cases hsparse : s.sparseIndex with
      | none => simp only [updateSparse, hsparse]
      | some sparse => simp only [updateSparse, hsparse]
    · rw [set_getElem_self]
      exact h
    · nofun
  | some acc =>
    rcases hmade with ⟨henable, row, hdp, hmeans⟩
    cases hsparse : s.sparseIndex with
    | none =>
      rw [hsparse] at h
      have hoff : enable = false := h
      rw [hoff] at henable
      cases henable
    | some sparse =>
      rw [hsparse] at h
      rcases h.2.update hn row with ⟨s', hs', hok, hindex⟩
      refine ⟨some s', row, { s with sparseIndex := some s' }, ?_, rfl, ?_,
        ⟨henable, hok⟩, ?_, ?_⟩
      · simp only [updateSparse, hsparse, hdp, hs']
        rfl
      · simp only [terms, hsparse, hindex]
      · intro acc' hacc
        cases hacc
        simp only [terms, hsparse] at hmeans ⊢
        rw [hindex]
        exact hmeans
      · nofun

theorem appendSparse_spec {enable : Bool}
    (h : SparsePart enable s.sparseIndex srows)
    (hcount : s.currentCount = srows.length)
    (hmade : Made enable s.terms dp given) :
    exists sparse row s', s.appendSparse dp = (.ok (), s') ∧
      s' = { s with sparseIndex := sparse } ∧ s'.terms = s.terms ∧
      SparsePart enable s'.sparseIndex (srows ++ [row]) ∧
      RowMeans s'.terms row (given.getD []) := by
  have hrow : exists row, dp.getD ⟨[], []⟩ = SparseDatapoint.ofEntries row ∧
      RowMeans s.terms row (given.getD []) := by
    cases given with
    | none =>
      have hdp : dp = none := hmade
      rw [hdp]
      exact ⟨[], rfl, RowMeans.nil⟩
    | some acc =>
      rcases hmade with ⟨_, row, hdp, hmeans⟩
      rw [hdp]
      exact ⟨row, rfl, hmeans⟩
  rcases hrow with ⟨row, hdata, hmeans⟩
  cases hsparse : s.sparseIndex with
  | none =>
    rw [hsparse] at h
    refine ⟨none, row, s, ?_, ?_, rfl, ?_, hmeans⟩
    · simp only [appendSparse, hsparse]
    · rw [← hsparse]
    · rw [hsparse]
      exact h
  | some sparse =>
    rw [hsparse] at h
    rcases h.2.append row with ⟨s', hs', hok, hindex⟩
    have hterms : ({ s with sparseIndex := some s' } :
        FlatStore enc value).terms = s.terms := by
      simp only [terms, hsparse, hindex]
    refine ⟨some s', row, { s with sparseIndex := some s' }, ?_, rfl, hterms,
      ⟨h.1, hok⟩, ?_⟩
    · have hrows : ¬ s.currentCount ≠ sparse.rows := by
        rw [h.2.rows_eq, hcount]
        exact fun hne => hne rfl
      cases dp with
      | none =>
        rw [getD_none] at hdata
        simp only [appendSparse, hsparse, if_neg hrows, hdata, hs']
        rfl
      | some d =>
        rw [getD_some] at hdata
        simp only [appendSparse, hsparse, if_neg hrows, hdata, hs']
        rfl
    · rw [hterms]
      exact hmeans

/-!
# Adding
-/

variable {rows : List (Row enc value)} {sparse : Option (SparseRowIndex value)}

variable {new old : Row enc value}

/-- The element of a row is written again. -/
theorem StoreOk.set (h : StoreOk cfg s rows) (hn : rows[n]? = some old)
    (hlabel : new.label = old.label) (hoffset : new.offset = old.offset)
    (hpart : SparsePart cfg.enableSparse sparse
      ((rows.map Row.sparse).set n new.sparse)) :
    StoreOk cfg
      { s with sparseIndex := sparse, buffer := s.buffer.set n new.cell }
      (rows.set n new) where
  count := by
    rw [List.length_set]
    exact h.count
  room := by
    rw [List.length_set]
    exact h.room
  memory := by
    rw [List.length_set]
    exact h.memory
  cells := by
    intro j row hj
    have hlt := (List.getElem?_eq_some_iff.mp hn).1
    have hroom := h.room
    have hmemory := h.memory
    by_cases heq : n = j
    · subst heq
      rw [List.getElem?_set_self hlt] at hj
      rw [List.getElem?_set_self (by omega), some.inj hj]
    · rw [List.getElem?_set_ne heq] at hj ⊢
      exact h.cells j row hj
  labels := by
    rw [Interleaving.map_set_of_some Row.label hn hlabel]
    exact h.labels
  offsets := by
    rw [Interleaving.map_set_of_some Row.offset hn hoffset]
    exact h.offsets
  sparse := by
    rw [List.map_set]
    exact hpart

variable {c : Catalog enc value} {terms : List TermKey}

theorem Lists.set
    (h : Lists cfg terms rows c) (hnodup : (rows.map Row.label).Nodup)
    (hn : rows[n]? = some old)
    (hlabel : new.label = old.label) {e : Entry enc value}
    (hdesc : Describes cfg.enableSparse terms new e) :
    Lists cfg terms (rows.set n new)
      { c with live := update c.live old.label (some e) } where
  row := by
    intro row hrow
    rcases List.getElem?_of_mem hrow with ⟨j, hj⟩
    have hlt := (List.getElem?_eq_some_iff.mp hn).1
    by_cases heq : n = j
    · subst heq
      rw [List.getElem?_set_self hlt] at hj
      cases hj
      refine ⟨e, ?_, hdesc⟩
      rw [hlabel]
      exact update_self ..
    · rw [List.getElem?_set_ne heq] at hj
      rcases h.row row (List.mem_of_getElem? hj) with ⟨e', hlive, hdesc'⟩
      refine ⟨e', ?_, hdesc'⟩
      rw [← hlive]
      apply update_of_ne
      intro hsame
      have hplace : (rows.map Row.label)[n]? = (rows.map Row.label)[j]? := by
        rw [List.getElem?_map, List.getElem?_map, hn, hj, map_some,
          map_some, hsame]
      exact heq ((List.getElem?_inj (by simpa using hlt) hnodup).mp hplace)
  live := by
    intro label e' hlive
    rw [Interleaving.map_set_of_some Row.label hn hlabel]
    simp only [update_apply] at hlive
    split at hlive
    next heq =>
      rw [heq]
      exact List.mem_map_of_mem (List.mem_of_getElem? hn)
    next => exact h.live label e' hlive

variable {s' : FlatStore enc value}

variable {row : List (IndexT × value)}

/-- An update of a known label changes one row. -/
theorem update_agrees
    (h : Agrees cfg s c rows)
    (hn : rows[n]? = some old) (vector : Option vec)
    (hs' : s' = { s with sparseIndex := sparse })
    (hterms : s'.terms = s.terms)
    (hpart : SparsePart cfg.enableSparse s'.sparseIndex
      ((rows.map Row.sparse).set n row))
    (hgiven : forall acc, given = some acc -> RowMeans s'.terms row acc)
    (hkept : given = none -> row = old.sparse) :
    exists rows', Agrees cfg (s'.writeElement cfg n vector old.label)
      (c.add (vector.map cfg.encode) old.label given) rows' := by
  rcases h.lists.row old (mem_of_getElem? hn) with ⟨e, hlive, hold⟩
  have hcell : s'.cell cfg n = old.cell := by
    rw [hs']
    exact h.store.cell hn
  have hsparse : s'.sparseIndex = sparse := by
    rw [hs']
  rw [hsparse] at hpart
  have hwrite : s'.writeElement cfg n vector old.label =
      { s with
        sparseIndex := sparse
        buffer := s.buffer.set n (old.rewrite cfg vector row).cell } := by
    rw [writeElement, hcell, hs']
    rfl
  have hsame : (s'.writeElement cfg n vector old.label).terms = s.terms := by
    rw [← hterms, hwrite, hs']
    rfl
  have hnew : Describes cfg.enableSparse s.terms (old.rewrite cfg vector row)
      { offset := e.offset
        vector := (vector.map cfg.encode).or e.vector
        sparse := given.getD e.sparse } := by
    constructor
    · exact hold.offset
    · intro v hv
      cases vector with
      | none => exact hold.vector v hv
      | some w => exact some.inj hv
    · intro henable
      show RowMeans s.terms row (given.getD e.sparse)
      cases hg : given with
      | none =>
        rw [hkept hg]
        exact hold.sparse henable
      | some acc =>
        rw [← hterms]
        exact hgiven acc hg
  have hlabel : (old.rewrite cfg vector row).label = old.label := rfl
  have hoffset : (old.rewrite cfg vector row).offset = old.offset := rfl
  refine ⟨rows.set n (old.rewrite cfg vector row), ?_, ?_, ?_⟩
  · rw [hwrite]
    exact h.store.set hn hlabel hoffset hpart
  · rw [hsame, Catalog.add_of_live hlive]
    exact h.lists.set h.store.labels.nodup hn hlabel hnew
  · rw [hwrite, Catalog.add_of_live hlive]
    exact h.next

theorem makeRoom
    (hroom : s.currentCount ≤ s.capacity)
    (hmemory : s.buffer.length = s.capacity) :
    exists capacity buffer,
      (if s.capacity ≤ s.currentCount then
          s.resizeBuffer cfg (s.currentCount * 2 + 1) else s) =
        { s with capacity := capacity, buffer := buffer } ∧
      s.currentCount < capacity ∧ buffer.length = capacity ∧
      forall n, n < s.currentCount -> buffer[n]? = s.buffer[n]? := by
  by_cases hfull : s.capacity ≤ s.currentCount
  · rw [if_pos hfull, resizeBuffer, if_neg (by omega)]
    refine ⟨_, _, rfl, by omega, ?_, ?_⟩
    · rw [length_append, length_take, length_replicate]
      omega
    · intro n hn
      rw [getElem?_append_left (by rw [length_take]; omega),
        getElem?_take_of_lt (by omega)]
  · rw [if_neg hfull]
    exact ⟨s.capacity, s.buffer, rfl, by omega, hmemory, fun n _ => rfl⟩

/-- A row joins at the end. -/
theorem StoreOk.push (h : StoreOk cfg s rows)
    (hcount : rows.length < 2 ^ 31)
    (hlabel : new.label ∉ rows.map Row.label)
    (hoffset : new.offset ∉ rows.map Row.offset)
    (hpart : SparsePart cfg.enableSparse sparse
      (rows.map Row.sparse ++ [new.sparse]))
    {capacity next : Nat} {buffer : List (Cell enc)}
    (hroom : s.currentCount < capacity) (hmemory : buffer.length = capacity)
    (hkept : forall n, n < s.currentCount -> buffer[n]? = s.buffer[n]?) :
    StoreOk cfg
      { capacity := capacity
        buffer := buffer.set s.currentCount new.cell
        currentCount := s.currentCount + 1
        labelMap := s.labelMap.put new.label (toInt s.currentCount)
        offsetMap := s.offsetMap.put new.offset (toInt s.currentCount)
        sparseIndex := sparse
        nextLogicalOffset := next } (rows ++ [new]) where
  count := by
    rw [List.length_append, List.length_singleton, h.count]
  room := by
    rw [List.length_append, List.length_singleton, ← h.count]
    exact hroom
  memory := by
    rw [List.length_set]
    exact hmemory
  cells := by
    intro n row hn
    have hcount' := h.count
    by_cases hlt : n < rows.length
    · rw [List.getElem?_append_left hlt] at hn
      rw [List.getElem?_set_ne (by omega), hkept n (by omega)]
      exact h.cells n row hn
    · have hlen := (List.getElem?_eq_some_iff.mp hn).1
      rw [List.length_append, List.length_singleton] at hlen
      have hlast : n = rows.length := by omega
      subst hlast
      rw [List.getElem?_concat_length] at hn
      rw [hcount', List.getElem?_set_self (by omega), some.inj hn]
  labels := by
    rw [List.map_append, h.count, toInt_of_lt hcount]
    have hpush := h.labels.push hlabel
    rwa [List.length_map] at hpush
  offsets := by
    rw [List.map_append, h.count, toInt_of_lt hcount]
    have hpush := h.offsets.push hoffset
    rwa [List.length_map] at hpush
  sparse := by
    rw [List.map_append]
    exact hpart

theorem Lists.notMem
    (h : Lists cfg terms rows c) {label : Label}
    (hlive : c.live label = none) : label ∉ rows.map Row.label := by
  intro hmem
  rcases mem_map.mp hmem with ⟨row, hrow, heq⟩
  rcases h.row row hrow with ⟨e, hsome, _⟩
  rw [heq, hlive] at hsome
  cases hsome

theorem Lists.next_notMem
    (h : Lists cfg terms rows c) (hc : c.Ok) {offset : Offset}
    (hoffset : offset.toNat = c.next) : offset ∉ rows.map Row.offset := by
  intro hmem
  rcases mem_map.mp hmem with ⟨row, hrow, heq⟩
  rcases h.row row hrow with ⟨e, hlive, hdesc⟩
  have hlt := hc.offset_lt hlive
  rw [← hdesc.offset, heq, hoffset] at hlt
  exact Nat.lt_irrefl _ hlt

theorem Lists.push
    (h : Lists cfg terms rows c)
    (hlive : c.live new.label = none) {e : Entry enc value}
    (hdesc : Describes cfg.enableSparse terms new e) {next : Nat}
    {past : List (Label × Nat)} :
    Lists cfg terms (rows ++ [new])
      ⟨update c.live new.label (some e), next, past⟩ where
  row := by
    intro row hrow
    rcases mem_append.mp hrow with hrow | hrow
    · rcases h.row row hrow with ⟨e', hlive', hdesc'⟩
      refine ⟨e', ?_, hdesc'⟩
      rw [← hlive']
      apply update_of_ne
      intro heq
      rw [heq, hlive] at hlive'
      cases hlive'
    · rw [mem_singleton.mp hrow]
      exact ⟨e, update_self .., hdesc⟩
  live := by
    intro label e' hl
    rw [map_append]
    simp only [update_apply] at hl
    split at hl
    next heq =>
      rw [heq]
      exact mem_append_right _ mem_cons_self
    next => exact mem_append_left _ (h.live label e' hl)

theorem newElement_writeElement {capacity : Nat} {buffer : List (Cell enc)}
    (hresize : (if s.capacity ≤ s.currentCount then
        s.resizeBuffer cfg (s.currentCount * 2 + 1) else s) =
      { s with capacity := capacity, buffer := buffer })
    (hroom : s.currentCount < buffer.length)
    (hsize : toSize (toInt s.currentCount) = s.currentCount)
    (vector : Option vec) (label : Label) :
    exists bytes, (s.newElement cfg label).writeElement cfg s.currentCount
        vector label =
      { capacity := capacity
        buffer := buffer.set s.currentCount {
          vector := (vector.map cfg.encode).getD bytes
          label := label
          offset := UInt32.ofNat s.nextLogicalOffset }
        currentCount := s.currentCount + 1
        labelMap := s.labelMap.put label (toInt s.currentCount)
        offsetMap := s.offsetMap.put (UInt32.ofNat s.nextLogicalOffset)
          (toInt s.currentCount)
        sparseIndex := s.sparseIndex
        nextLogicalOffset := s.nextLogicalOffset + 1 } := by
  refine ⟨(buffer.getD s.currentCount cfg.junk).vector, ?_⟩
  rw [newElement, hresize, writeElement]
  simp only [hsize, cell, set_set, getD_eq_getElem?_getD,
    getElem?_set_self hroom, getD_some]

theorem insert_agrees
    (h : Agrees cfg s c rows) (hc : c.Ok) (hnext : c.next < 2 ^ 31)
    {label : Label} (hlive : c.live label = none) (vector : Option vec)
    (hs' : s' = { s with sparseIndex := sparse })
    (hterms : s'.terms = s.terms)
    (hpart : SparsePart cfg.enableSparse s'.sparseIndex
      (rows.map Row.sparse ++ [row]))
    (hmeans : RowMeans s'.terms row (given.getD [])) :
    exists rows', Agrees cfg
      ((s'.newElement cfg label).writeElement cfg
        (toSize (toInt s'.currentCount)) vector label)
      (c.add (vector.map cfg.encode) label given) rows' := by
  have hle := h.lists.length_le hc h.store.offsets.nodup
  have hcount : s'.currentCount = rows.length := by
    rw [hs']
    exact h.store.count
  have hoffset : (UInt32.ofNat c.next).toNat = c.next := toNat_ofNat_offset hnext
  have hfields : s'.labelMap = s.labelMap ∧ s'.offsetMap = s.offsetMap ∧
      s'.nextLogicalOffset = c.next ∧ s'.currentCount = s.currentCount ∧
      s'.buffer = s.buffer ∧ s'.capacity = s.capacity := by
    rw [hs']
    exact ⟨rfl, rfl, h.next, rfl, rfl, rfl⟩
  rcases hfields with ⟨hlabelMap, hoffsetMap, hnext', hcount', hbuffer, hcap⟩
  have hsize : toSize (toInt s'.currentCount) = s'.currentCount :=
    toSize_toInt (by omega)
  rcases @makeRoom _ _ _ _ cfg s' (by rw [hcount, hcap]; exact h.store.room)
    (by rw [hbuffer, hcap]; exact h.store.memory) with
    ⟨capacity, buffer, hresize, hroom, hmemory, hkept⟩
  rcases newElement_writeElement hresize (by omega) hsize vector label with
    ⟨bytes, hwrite⟩
  rw [hsize, hwrite, hlabelMap, hoffsetMap, hnext', hcount']
  rw [hcount', hbuffer] at hkept
  rw [hcount'] at hroom
  let new : Row enc value :=
    { cell := {
        vector := (vector.map cfg.encode).getD bytes
        label := label
        offset := UInt32.ofNat c.next }
      sparse := row }
  have hlabelNew : new.label ∉ rows.map Row.label := h.lists.notMem hlive
  have hoffsetNew : new.offset ∉ rows.map Row.offset :=
    h.lists.next_notMem hc hoffset
  have hdesc : Describes cfg.enableSparse s.terms new
      { offset := c.next
        vector := vector.map cfg.encode
        sparse := given.getD [] } := by
    constructor
    · exact hoffset
    · intro v hv
      show (vector.map cfg.encode).getD bytes = v
      rw [show vector.map cfg.encode = some v from hv]
      rfl
    · intro _
      rw [← hterms]
      exact hmeans
  refine ⟨rows ++ [new], ?_, ?_, ?_⟩
  · exact h.store.push (by omega) hlabelNew hoffsetNew hpart hroom hmemory hkept
  · have hliveNew : c.live new.label = none := hlive
    have hpush : Lists cfg s.terms (rows ++ [new])
        ⟨_, c.next + 1, c.past ++ [(label, c.next)]⟩ :=
      h.lists.push hliveNew hdesc
    rw [← hterms] at hpush
    rw [Catalog.add_of_new hlive]
    exact hpush
  · rw [Catalog.add_of_new hlive]

theorem Agrees.withSparse (h : Agrees cfg s c rows)
    (hs' : s' = { s with sparseIndex := sparse })
    (hpart : SparsePart cfg.enableSparse s'.sparseIndex
      (rows.map Row.sparse)) (hpre : s.terms <+: s'.terms) :
    Agrees cfg s' c rows where
  store := by
    subst hs'
    exact ⟨h.store.count, h.store.room, h.store.memory, h.store.cells,
      h.store.labels, h.store.offsets, hpart⟩
  lists := h.lists.extend hpre
  next := by
    rw [hs']
    exact h.next

@[simp] theorem terms_writeElement (cfg : Config term vec enc)
    (s : FlatStore enc value) (n : Nat) (vector : Option vec)
    (label : Label) : (s.writeElement cfg n vector label).terms = s.terms :=
  rfl

@[simp] theorem terms_newElement (cfg : Config term vec enc)
    (s : FlatStore enc value) (label : Label) :
    (s.newElement cfg label).terms = s.terms := by
  have hsparse : (s.newElement cfg label).sparseIndex = s.sparseIndex := by
    show (if s.capacity ≤ s.currentCount then
      s.resizeBuffer cfg (s.currentCount * 2 + 1) else s).sparseIndex = _
    split
    next =>
      rw [resizeBuffer]
      split
      · rfl
      · rfl
    next => rfl
  rw [terms, hsparse]
  rfl

/-- What `add_point` does to the catalog. -/
def Catalog.addGiven [Add value] (cfg : Config term vec enc)
    (c : Catalog enc value) (vector : Option vec) (label : Label)
    (sparseData : Option (LowLevelSparse term value)) : Catalog enc value :=
  match Ledger.givenSparse cfg sparseData with
  | none => c
  | some sparse => c.add (vector.map cfg.encode) label sparse

theorem addPoint_agrees [Add value] [Zero value] (h : Agrees cfg s c rows) (hc : c.Ok)
    (hnext : c.next < 2 ^ 31)
    (hlen : vocabulary.length < 2 ^ 32) (hsub : s.terms ⊆ vocabulary)
    (vector : Option vec) (label : Label)
    (sparseData : Option (LowLevelSparse term value))
    (hterms : callTerms cfg sparseData ⊆ vocabulary) :
    (exists rows', Agrees cfg (s.addPoint cfg vector label sparseData).2
        (c.addGiven cfg vector label sparseData) rows') ∧
      (s.addPoint cfg vector label sparseData).2.terms ⊆ vocabulary ∧
      (s.addPoint cfg vector label sparseData).1.isOk =
        (Ledger.givenSparse cfg sparseData).isSome := by
  have hconvert := convertSparse_spec h.store.sparse hlen hsub sparseData hterms
  rw [Catalog.addGiven]
  cases hgiven : Ledger.givenSparse cfg sparseData with
  | none =>
    rw [hgiven] at hconvert
    rcases hconvert with ⟨e, hout⟩
    rw [addPoint, hout]
    exact ⟨⟨rows, h⟩, hsub, rfl⟩
  | some given =>
    rw [hgiven] at hconvert
    rcases hconvert with ⟨dp, sparse, s1, hout, hs1, hpart, hpre, hvoc, hmade⟩
    have h1 := h.withSparse hs1 hpart hpre
    have hle := h.lists.length_le hc h.store.offsets.nodup
    rw [addPoint, hout]
    cases hfind : s1.labelMap.find label with
    | some i =>
      rcases h1.store.find_label hfind with ⟨n, old, hn, hlabel, hi⟩
      have hlt := (List.getElem?_eq_some_iff.mp hn).1
      have hsize : toSize i = n := by
        rw [hi]
        exact toSize_natCast (by omega)
      rcases updateSparse_spec hpart (n := n) (by simpa using hlt) hmade
        with ⟨sparse2, row, s2, hupdate, hs2, hterms2, hpart2, hmeans, hkept⟩
      have hkept' : given = none -> row = old.sparse := by
        intro hnone
        rw [hkept hnone, List.getElem_map]
        rw [List.getElem?_eq_getElem hlt] at hn
        rw [some.inj hn]
      simp only [hfind, hsize, hupdate]
      rw [← hlabel]
      refine ⟨update_agrees h1 hn vector hs2 hterms2 hpart2 hmeans hkept',
        ?_, rfl⟩
      rw [terms_writeElement, hterms2]
      exact hvoc
    | none =>
      have hlive : c.live label = none := by
        cases hl : c.live label with
        | none => rfl
        | some e =>
          have hmem := h1.lists.live label e hl
          exact absurd hmem (h1.store.labels.find_none.mp hfind)
      have hcount : s1.currentCount = (rows.map Row.sparse).length := by
        rw [h1.store.count, List.length_map]
      rcases appendSparse_spec hpart hcount hmade with
        ⟨sparse2, row, s2, happend, hs2, hterms2, hpart2, hmeans⟩
      simp only [hfind, happend]
      refine ⟨insert_agrees h1 hc hnext hlive vector hs2 hterms2 hpart2
        hmeans, ?_, rfl⟩
      rw [terms_writeElement, terms_newElement, hterms2]
      exact hvoc

end Vector
end OpenViking
