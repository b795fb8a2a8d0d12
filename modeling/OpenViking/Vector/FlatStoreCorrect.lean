import OpenViking.Vector.FlatStoreRemove

/-!
# The flat store keeps the catalog

Every call keeps the rows in step with the catalog, so after a session the
maps, the buffer and the sparse rows say what was last given for the labels
that are alive.
-/

namespace OpenViking
namespace Vector

open Paths Places Function World FlatStore List Ledger

variable {term vec enc value : Type}

/-!
# One call
-/

/-- The calls that are counted. -/
def Op.isPointCall : Op term vec value -> Bool
  | .add _ _ _ => true
  | .remove _ => true
  | _ => false

/-- The terms of a call. -/
def Op.terms (cfg : Config term vec enc) : Op term vec value -> List TermKey
  | .add _ _ sparseData => callTerms cfg sparseData
  | _ => []

/-- No catalog handed out more offsets than a number. -/
structure Bounded (n : Nat) (a : Ledger enc value) : Prop where
  current : a.current.next ≤ n
  saved : forall dir c, a.saved dir = some c -> c.next ≤ n

variable {a : Ledger enc value}

theorem Bounded.step [Add value] {n : Nat}
    (h : Bounded n a) (cfg : Config term vec enc) (op : Op term vec value) :
    Bounded (n + op.isPointCall.toNat) (a.step cfg op) := by
  cases op with
  | create k => exact ⟨Nat.zero_le _, h.saved⟩
  | remove label =>
    exact ⟨Nat.le_succ_of_le h.current,
      fun d c hc => Nat.le_succ_of_le (h.saved d c hc)⟩
  | save dir =>
    refine ⟨h.current, ?_⟩
    intro d c hc
    simp only [Ledger.step, update_apply] at hc
    split at hc
    next =>
      cases hc
      exact h.current
    next => exact h.saved d c hc
  | load dir =>
    rw [Ledger.step]
    cases hdir : a.saved dir with
    | none => exact h
    | some c => exact ⟨h.saved dir c hdir, h.saved⟩
  | add vector label sparseData =>
    have hsaved : forall d c, a.saved d = some c -> c.next ≤ n + 1 :=
      fun d c hc => Nat.le_succ_of_le (h.saved d c hc)
    rw [Ledger.step]
    cases Ledger.givenSparse cfg sparseData with
    | none => exact ⟨Nat.le_succ_of_le h.current, hsaved⟩
    | some sparse =>
      refine ⟨?_, hsaved⟩
      have hcur := h.current
      show (a.current.add (vector.map cfg.encode) label sparse).next ≤ n + 1
      cases hlive : a.current.live label with
      | some e =>
        rw [Catalog.add_of_live hlive]
        exact Nat.le_succ_of_le hcur
      | none =>
        rw [Catalog.add_of_new hlive]
        exact Nat.succ_le_succ hcur

/-- The store and the directories keep the catalogs. -/
structure WorldKeeps (cfg : Config term vec enc) (vocabulary : List TermKey)
    (w : World enc value) (a : Ledger enc value) : Prop where
  current : exists rows, Agrees cfg w.store a.current rows
  terms : w.store.terms ⊆ vocabulary
  fresh : a.fresh = true -> w.store.terms = []
  saved : forall dir c, a.saved dir = some c -> exists terms rows,
    DirKeeps cfg (w.dirs dir) c terms rows ∧ terms ⊆ vocabulary ∧
      terms.length < 2 ^ 32
  unsaved : forall dir, a.saved dir = none -> (w.dirs dir).flat = none

theorem agrees_new (cfg : Config term vec enc) (n : Nat) :
    Agrees cfg (new cfg n : FlatStore enc value) Catalog.empty [] ∧
      (new cfg n : FlatStore enc value).terms = [] := by
  have hterms : (new cfg n : FlatStore enc value).terms = [] := by
    rw [terms, new]
    cases cfg.enableSparse with
    | false => rfl
    | true => rfl
  refine ⟨⟨⟨rfl, Nat.zero_le _, ?_, ?_, Placed.empty, Placed.empty,
    SparsePart.new cfg n⟩, ⟨?_, ?_⟩, rfl⟩, hterms⟩
  · exact length_replicate
  · intro k row hk
    simp at hk
  · rintro _ ⟨⟩
  · rintro _ _ ⟨⟩

theorem worldKeeps_start (cfg : Config term vec enc)
    (vocabulary : List TermKey) (n : Nat) :
    WorldKeeps cfg vocabulary (start cfg n : World enc value)
      start := by
  rcases (agrees_new cfg n :
    Agrees cfg (new cfg n : FlatStore enc value) Catalog.empty [] ∧
      _) with ⟨hagrees, hterms⟩
  have hstart : (start cfg n : World enc value).store.terms = [] := hterms
  refine ⟨⟨[], hagrees⟩, ?_, fun _ => hterms, ?_, fun _ _ => rfl⟩
  · rw [hstart]
    exact nil_subset _
  · nofun

variable {cfg : Config term vec enc} {vocabulary : List TermKey}

theorem StoreOk.terms_length
    {s : FlatStore enc value} {rows : List (Row enc value)}
    (h : StoreOk cfg s rows)
    (hsub : s.terms ⊆ vocabulary) (hlen : vocabulary.length < 2 ^ 32) :
    s.terms.length < 2 ^ 32 := by
  have hnodup : s.terms.Nodup := by
    have hpart := h.sparse
    rw [terms]
    cases hsparse : s.sparseIndex with
    | none => exact nodup_nil
    | some sparse =>
      rw [hsparse] at hpart
      exact hpart.2.terms.nodup
  have hle := (subperm_of_subset hnodup hsub).length_le
  omega

theorem WorldKeeps.step [Add value] [Zero value] {w : World enc value}
    (h : WorldKeeps cfg vocabulary w a) (ha : a.Ok) {n : Nat}
    (hn : Bounded n a) (hlt : n < 2 ^ 31)
    (hlen : vocabulary.length < 2 ^ 32) (op : Op term vec value)
    (hterms : op.terms cfg ⊆ vocabulary)
    (hload : forall dir, op = .load dir -> cfg.enableSparse = true ->
      a.fresh = true) :
    WorldKeeps cfg vocabulary (w.step cfg op) (a.step cfg op) := by
  rcases h.current with ⟨rows, hagrees⟩
  have hnext : a.current.next < 2 ^ 31 := Nat.lt_of_le_of_lt hn.current hlt
  have hle := hagrees.lists.length_le ha.current hagrees.store.offsets.nodup
  cases op with
  | create k =>
    rcases (agrees_new cfg k :
      Agrees cfg (new cfg k : FlatStore enc value) Catalog.empty [] ∧
        _) with ⟨hnew, hnil⟩
    refine ⟨⟨[], hnew⟩, ?_, fun _ => hnil, h.saved, h.unsaved⟩
    show (new cfg k : FlatStore enc value).terms ⊆ vocabulary
    rw [hnil]
    exact nil_subset _
  | add vector label sparseData =>
    have hadd := addPoint_agrees hagrees ha.current hnext hlen h.terms vector
      label sparseData hterms
    have hledger : (a.step cfg (.add vector label sparseData)).current =
        a.current.addGiven cfg vector label sparseData := by
      rw [Ledger.step, Catalog.addGiven]
      cases Ledger.givenSparse cfg sparseData with
      | none => rfl
      | some sparse => rfl
    have hother : (a.step cfg (.add vector label sparseData)).saved = a.saved ∧
        (a.step cfg (.add vector label sparseData)).fresh =
          (a.fresh && sparseData.isNone) := by
      rw [Ledger.step]
      cases Ledger.givenSparse cfg sparseData with
      | none => exact ⟨rfl, rfl⟩
      | some sparse => exact ⟨rfl, rfl⟩
    constructor
    · rw [hledger]
      exact hadd.1
    · exact hadd.2.1
    · intro hfresh
      rw [hother.2, Bool.and_eq_true, Option.isNone_iff_eq_none] at hfresh
      have hempty : w.store.terms ⊆ [] := by
        rw [h.fresh hfresh.1]
        exact List.Subset.refl _
      have hnil := addPoint_agrees hagrees ha.current hnext (by simp) hempty
        vector label sparseData (by rw [hfresh.2]; exact List.Subset.refl _)
      exact subset_nil.mp hnil.2.1
    · rw [hother.1]
      exact h.saved
    · rw [hother.1]
      exact h.unsaved
  | remove label =>
    rcases removePoint_agrees hagrees (by omega) label with
      ⟨rows', s', hs', hagrees', hterms'⟩
    have hstore : (w.step cfg (.remove label)).store = s' := by
      rw [World.step, hs']
    refine ⟨⟨rows', ?_⟩, ?_, ?_, h.saved, h.unsaved⟩
    · rw [hstore]
      exact hagrees'
    · rw [hstore, hterms']
      exact h.terms
    · intro hfresh
      rw [hstore, hterms']
      exact h.fresh hfresh
  | save dir =>
    rcases save_keeps hagrees (by omega) (w.dirs dir) with ⟨d, hd, hkeeps⟩
    have hdir : (w.step cfg (.save dir)).dirs = update w.dirs dir d := by
      rw [World.step, hd]
    have hledger : (a.step cfg (.save dir)).saved =
        update a.saved dir (some a.current) := rfl
    refine ⟨⟨rows, hagrees⟩, h.terms, h.fresh, ?_, ?_⟩
    · intro d' c hc
      rw [hledger, update_apply] at hc
      rw [hdir, update_apply]
      split at hc
      next heq =>
        cases hc
        rw [if_pos heq]
        exact ⟨_, rows, hkeeps, h.terms, hagrees.store.terms_length h.terms hlen⟩
      next hne =>
        rw [if_neg hne]
        exact h.saved d' c hc
    · intro d' hc
      rw [hledger, update_apply] at hc
      rw [hdir, update_apply]
      split at hc
      next => cases hc
      next hne =>
        rw [if_neg hne]
        exact h.unsaved d' hc
  | load dir =>
    cases hsaved : a.saved dir with
    | none =>
      have hstore : w.step cfg (.load dir) = w := by
        rw [World.step, load, h.unsaved dir hsaved]
      rw [hstore, Ledger.step, hsaved]
      exact h
    | some c =>
      rcases h.saved dir c hsaved with ⟨terms, rows', hkeeps, hsub, hshort⟩
      have hsmall := hn.saved dir c hsaved
      rcases load_agrees hkeeps (ha.saved dir c hsaved) (by omega)
        hagrees.store.sparse (fun henable => h.fresh (hload dir rfl henable))
        hshort with ⟨s', hs', hagrees', hterms'⟩
      have hstore : w.step cfg (.load dir) = { w with store := s' } := by
        rw [World.step, hs']
      rw [hstore, Ledger.step, hsaved]
      refine ⟨⟨rows', hagrees'⟩, List.Subset.trans hterms' hsub, ?_, h.saved,
        h.unsaved⟩
      intro hfresh
      cases hfresh

/-!
# A whole session
-/

/-- How many calls of a session add or remove a point. -/
def pointCalls (ops : List (Op term vec value)) : Nat :=
  ops.countP Op.isPointCall

theorem WorldKeeps.run [Add value] [Zero value] {w : World enc value}
    (h : WorldKeeps cfg vocabulary w a) (ha : a.Ok) {n : Nat}
    (hn : Bounded n a) (hlen : vocabulary.length < 2 ^ 32)
    (ops : List (Op term vec value)) (hcalls : n + pointCalls ops < 2 ^ 31)
    (hterms : forall op, op ∈ ops -> op.terms cfg ⊆ vocabulary)
    (hloads : a.LoadsFresh cfg ops) :
    WorldKeeps cfg vocabulary (w.run cfg ops) (a.run cfg ops) ∧
      Bounded (n + pointCalls ops) (a.run cfg ops) := by
  induction ops generalizing w a n with
  | nil => exact ⟨h, hn⟩
  | cons op rest ih =>
    have hcount : pointCalls (op :: rest) =
        op.isPointCall.toNat + pointCalls rest := by
      rw [pointCalls, countP_cons, pointCalls]
      cases op.isPointCall with
      | false => simp
      | true => simp [Nat.add_comm]
    rw [hcount] at hcalls ⊢
    have hstep := h.step ha hn (by omega) hlen op
      (hterms op mem_cons_self) hloads.1
    have hrest := ih hstep (ha.step cfg op) (hn.step cfg op) (by omega)
      (fun o ho => hterms o (mem_cons_of_mem _ ho)) hloads.2
    rw [Nat.add_assoc] at hrest
    exact hrest

/-- What the maps, the buffer and the sparse rows of a store say. -/
structure Faithful (cfg : Config term vec enc) (s : FlatStore enc value)
    (c : Catalog enc value) : Prop where
  labelMap : forall label i, s.labelMap.find label = some i <->
    exists n : Nat, n < s.currentCount ∧ (s.cell cfg n).label = label ∧ i = n
  offsetMap : forall offset i, s.offsetMap.find offset = some i <->
    exists n : Nat, n < s.currentCount ∧ (s.cell cfg n).offset = offset ∧ i = n
  live : forall label, s.labelMap.find label = none <-> c.live label = none
  row : forall label e, c.live label = some e -> exists n : Nat,
    s.labelMap.find label = some (n : Int) ∧
    (s.cell cfg n).offset.toNat = e.offset ∧
    (forall v, e.vector = some v -> (s.cell cfg n).vector = v) ∧
    (forall sparse, s.sparseIndex = some sparse -> exists entries,
      sparse.getRow n = .ok (SparseDatapoint.ofEntries entries) ∧
      RowMeans sparse.indexTerm entries e.sparse)
  sparseRows : forall sparse, s.sparseIndex = some sparse ->
    sparse.rows = s.currentCount
  offsetOf : forall label e, c.live label = some e ->
    s.getOffsetByLabel cfg label = e.offset ∧
    s.getLabelByOffset cfg (s.getOffsetByLabel cfg label) = label
  owner : forall label e other, c.live label = some e ->
    (other, e.offset) ∈ c.past -> other = label

theorem Agrees.faithful {s : FlatStore enc value}
    {c : Catalog enc value} {rows : List (Row enc value)}
    (h : Agrees cfg s c rows) (hc : c.Ok) (hnext : c.next < 2 ^ 31) :
    Faithful cfg s c := by
  have hle := h.lists.length_le hc h.store.offsets.nodup
  have hcount := h.store.count
  have hcell : forall n (hn : n < rows.length), s.cell cfg n = rows[n].cell :=
    fun n hn => h.store.cell (List.getElem?_eq_getElem hn)
  have hrow : forall label e, c.live label = some e ->
      exists (n : Nat) (row : Row enc value), rows[n]? = some row ∧
        row.label = label ∧ s.labelMap.find label = some (n : Int) ∧
        Describes cfg.enableSparse s.terms row e := by
    intro label e hlive
    rcases List.mem_map.mp (h.lists.live label e hlive) with ⟨row, hmem, heq⟩
    rcases List.getElem?_of_mem hmem with ⟨n, hn⟩
    rcases h.lists.row row hmem with ⟨e', hlive', hdesc⟩
    rw [heq, hlive] at hlive'
    cases hlive'
    refine ⟨n, row, hn, heq, h.store.labels.place ?_, hdesc⟩
    rw [List.getElem?_map, hn, Option.map_some, heq]
  have hfind : forall {key : Type} (part : Cell enc -> key) (k : key) (i : Int),
      (exists n : Nat, (rows.map fun row => part row.cell)[n]? = some k ∧ i = n) <->
        exists n : Nat, n < s.currentCount ∧ part (s.cell cfg n) = k ∧ i = n := by
    intro key part k i
    constructor
    · intro hex
      rcases hex with ⟨n, hn, hi⟩
      rw [List.getElem?_map, Option.map_eq_some_iff] at hn
      rcases hn with ⟨row, hget, hpart⟩
      refine ⟨n, ?_, ?_, hi⟩
      · rw [hcount]
        exact (List.getElem?_eq_some_iff.mp hget).1
      · rw [h.store.cell hget]
        exact hpart
    · intro hex
      rcases hex with ⟨n, hn, hpart, hi⟩
      rw [hcount] at hn
      refine ⟨n, ?_, hi⟩
      rw [hcell n hn] at hpart
      rw [List.getElem?_map, List.getElem?_eq_getElem hn, Option.map_some]
      exact congrArg some hpart
  constructor
  · intro label i
    rw [h.store.labels.find]
    exact hfind Cell.label label i
  · intro offset i
    rw [h.store.offsets.find]
    exact hfind Cell.offset offset i
  · intro label
    rw [h.store.labels.find_none]
    constructor
    · intro hmem
      cases hlive : c.live label with
      | none => rfl
      | some e => exact absurd (h.lists.live label e hlive) hmem
    · exact h.lists.notMem
  · intro label e hlive
    rcases hrow label e hlive with ⟨n, row, hn, _, hfind, hdesc⟩
    have hlt := (List.getElem?_eq_some_iff.mp hn).1
    refine ⟨n, hfind, ?_, ?_, ?_⟩
    · rw [h.store.cell hn]
      exact hdesc.offset
    · rw [h.store.cell hn]
      exact hdesc.vector
    · intro sparse hsparse
      have hpart := h.store.sparse
      rw [hsparse] at hpart
      have hget := hpart.2.data.getRow (i := n) (by simpa using hlt)
      rw [List.getElem_map] at hget
      rw [List.getElem?_eq_getElem hlt] at hn
      rw [Option.some.inj hn] at hget
      refine ⟨row.sparse, hget, ?_⟩
      have hmeans := hdesc.sparse hpart.1
      rwa [terms, hsparse] at hmeans
  · intro sparse hsparse
    have hpart := h.store.sparse
    rw [hsparse] at hpart
    rw [hpart.2.rows_eq, List.length_map, hcount]
  · intro label e hlive
    rcases hrow label e hlive with ⟨n, row, hn, hlabel, hfind, hdesc⟩
    have hlt := (List.getElem?_eq_some_iff.mp hn).1
    have hsmall := hc.offset_lt hlive
    have hget : s.getOffsetByLabel cfg label = e.offset := by
      rw [getOffsetByLabel, hfind]
      simp only [toSize_natCast (by omega : n < 2 ^ 31), h.store.cell hn]
      rw [show row.cell.offset.toNat = e.offset from hdesc.offset,
        toInt_of_lt (by omega)]
    refine ⟨hget, ?_⟩
    have hoffset : UInt32.ofNat ((e.offset : Int) % 2 ^ 32).toNat =
        row.offset := by
      rw [Int.emod_eq_of_lt (by omega) (by omega), Int.toNat_natCast]
      apply UInt32.toNat_inj.mp
      rw [toNat_ofNat_offset (by omega), hdesc.offset]
    have hplace : s.offsetMap.find row.offset = some (n : Int) := by
      apply h.store.offsets.place
      rw [List.getElem?_map, hn]
      rfl
    rw [hget, getLabelByOffset, hoffset, hplace]
    simp only [toSize_natCast (by omega : n < 2 ^ 31), h.store.cell hn]
    exact hlabel
  · intro label e other hlive hother
    exact hc.owner hlive hother

theorem Ledger.LoadsFresh.left [Add value] {pre rest : List (Op term vec value)}
    (h : a.LoadsFresh cfg (pre ++ rest)) : a.LoadsFresh cfg pre := by
  induction pre generalizing a with
  | nil => trivial
  | cons op pre ih => exact ⟨h.1, ih h.2⟩

theorem ledger_run_append [Add value] (cfg : Config term vec enc)
    (a : Ledger enc value) (pre rest : List (Op term vec value)) :
    a.run cfg (pre ++ rest) = (a.run cfg pre).run cfg rest :=
  foldl_append

private theorem run_faithful [Add value] [Zero value]
    (cfg : Config term vec enc) (maxElementCount : Nat)
    (ops : List (Op term vec value))
    (hcalls : pointCalls ops < 2 ^ 31) (hlen : vocabulary.length < 2 ^ 32)
    (hterms : forall op, op ∈ ops -> op.terms cfg ⊆ vocabulary)
    (hloads : (start : Ledger enc value).LoadsFresh cfg ops) :
    Faithful cfg
      ((start cfg maxElementCount : World enc value).run cfg ops).store
      (run cfg start ops).current := by
  have hstart : Bounded 0 (start : Ledger enc value) := by
    refine ⟨Nat.le_refl _, ?_⟩
    intro dir c hc
    cases hc
  have hrun := (worldKeeps_start cfg vocabulary maxElementCount).run
    ok_start hstart hlen ops (by rwa [Nat.zero_add]) hterms hloads
  rcases hrun.1.current with ⟨rows, hagrees⟩
  have hbound := hrun.2.current
  rw [Nat.zero_add] at hbound
  exact hagrees.faithful (ok_start.run cfg ops).current (by omega)

/-- After a session the store says what was last given for the live labels,
and while a label lives its offset stays the same. -/
theorem session_faithful [Add value] [Zero value] (cfg : Config term vec enc)
    (maxElementCount : Nat) (ops : List (Op term vec value))
    (vocabulary : List TermKey) (hcalls : pointCalls ops < 2 ^ 31)
    (hlen : vocabulary.length < 2 ^ 32)
    (hterms : forall op, op ∈ ops -> op.terms cfg ⊆ vocabulary)
    (hloads : (Ledger.start : Ledger enc value).LoadsFresh cfg ops) :
    let session := (start cfg maxElementCount : World enc value).run cfg
    Faithful cfg (session ops).store (Ledger.run cfg Ledger.start ops).current ∧
      forall pre rest, ops = pre ++ rest -> forall label,
        (session pre).store.labelMap.find label ≠ none ->
        (forall op, op ∈ rest -> ¬ Ledger.Ends label op) ->
        (session ops).store.getOffsetByLabel cfg label =
          (session pre).store.getOffsetByLabel cfg label := by
  intro session
  have hall := run_faithful cfg maxElementCount ops hcalls hlen hterms hloads
  refine ⟨hall, ?_⟩
  intro pre rest hops label hlive hrest
  subst hops
  have hcount : pointCalls pre ≤ pointCalls (pre ++ rest) := by
    rw [pointCalls, pointCalls, List.countP_append]
    exact Nat.le_add_right _ _
  have hpre := run_faithful cfg maxElementCount pre (by omega) hlen
    (fun op hop => hterms op (List.mem_append_left _ hop)) hloads.left
  cases hentry : (Ledger.run cfg Ledger.start pre).current.live label with
  | none => exact absurd ((hpre.live label).mpr hentry) hlive
  | some e =>
    rcases Ledger.run_offset cfg (Ledger.run cfg Ledger.start pre) rest hentry
      hrest with ⟨e', hentry', hsame⟩
    rw [← ledger_run_append] at hentry'
    rw [(hall.offsetOf label e' hentry').1, (hpre.offsetOf label e hentry).1,
      hsame]

/-!
# A sample
-/

def sampleConfig (enableSparse : Bool) : Config Nat Nat Nat where
  encode := id
  hash := UInt64.ofNat
  elementByteSize := 20
  enableSparse := enableSparse
  junk := ⟨0, 0, 0⟩

/-- Two points, one saved and loaded into a new object, and a removal. -/
def sampleOps : List (Op Nat Nat Nat) :=
  [.add (some 10) 1 (some ⟨some [7, 8, 7], [5, 6, 5]⟩), .add none 2 none,
    .save ['d'], .create 4, .load ['d'], .remove 1,
    .add (some 20) 2 (some ⟨some [9], [1]⟩)]

theorem session_faithful_sample :
    let session :=
      (start (sampleConfig true) 1 : World Nat Nat).run (sampleConfig true)
    Faithful (sampleConfig true) (session sampleOps).store
        (Ledger.run (sampleConfig true) Ledger.start sampleOps).current ∧
      forall pre rest, sampleOps = pre ++ rest -> forall label,
        (session pre).store.labelMap.find label ≠ none ->
        (forall op, op ∈ rest -> ¬ Ledger.Ends label op) ->
        (session sampleOps).store.getOffsetByLabel (sampleConfig true) label =
          (session pre).store.getOffsetByLabel (sampleConfig true) label := by
  apply session_faithful (sampleConfig true) 1 sampleOps [7, 8, 9] (by decide)
    (by decide)
  · intro op hop
    simp only [sampleOps, List.mem_cons, List.not_mem_nil, or_false] at hop
    rcases hop with rfl | rfl | rfl | rfl | rfl | rfl | rfl
    all_goals decide
  · simp [Ledger.LoadsFresh, sampleOps, Ledger.step, sampleConfig,
      Ledger.givenSparse, Ledger.start]

/-- Loading an older directory hands out an offset again, and an update
without sparse data keeps the sparse row of the label. -/
theorem offset_reused_and_sparse_kept :
    let dense := (start (sampleConfig false) 1 : World Nat Nat).run
      (sampleConfig false)
    let sparse := (start (sampleConfig true) 1 : World Nat Nat).run
      (sampleConfig true)
    let before : List (Op Nat Nat Nat) :=
      [.add (some 10) 1 none, .save ['d'], .add (some 20) 2 none]
    let after : List (Op Nat Nat Nat) :=
      before ++ [.load ['d'], .add (some 30) 3 none]
    let updated : List (Op Nat Nat Nat) :=
      [.add (some 10) 1 (some ⟨some [7], [5]⟩), .add (some 20) 1 none]
    (dense before).store.getOffsetByLabel (sampleConfig false) 2 = 1 ∧
    (dense after).store.getOffsetByLabel (sampleConfig false) 3 = 1 ∧
    ((sparse updated).store.sparseIndex.map fun s => s.sparseDataset) =
      some ⟨1, [0], [5], [0, 1]⟩ := by
  decide +kernel

end Vector
end OpenViking
