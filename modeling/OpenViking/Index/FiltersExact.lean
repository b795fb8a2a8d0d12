import OpenViking.Index.RecordsKept
import OpenViking.Scalar.ExactFilters

/-!
# Filters are exact

After any session a filter on a field selects the live labels whose current
record it asks for, whatever was stored before, as long as no text holds a
semicolon or a NUL and every number is read as the number its text stands for.
-/

namespace OpenViking
namespace Index

open Paths Scalar List Option Document FieldBitmapGroup
open OpenViking.Vector

variable {term vec enc value num : Type} [LinearOrder num]

/-!
# Loaded filters
-/

/-- A `-d=` parameter is kept between no limit and fifty. -/
def parseDirSemanticPara : Option Int -> Int
  | none => -1
  | some d => max (-1) (min 50 d)

/-- `MustOp::load_json_doc` with conditions of one kind. -/
def MustOp.load (field : Str) (conds : List Cond) (para : Option Int) :
    FilterOp num :=
  .must field (conds.map Cond.text) (parseDirSemanticPara para)

/-- The members of a range filter that bound the values of its field. -/
structure RangeConds where
  gte : Option Json
  gt : Option Json
  lte : Option Json
  lt : Option Json

/-- One side of a range: the inclusive member hides the strict one, and a side
that is not given ends before the given number. -/
def RangeOp.loadSide (reader : NumberReader num) (inclusive strict : Option Json)
    (far : num) : Option (num × Bool) :=
  match inclusive, strict with
  | some v, _ => (v.number reader).map fun x => (x, true)
  | none, some v => (v.number reader).map fun x => (x, false)
  | none, none => some (far, false)

/-- `RangeOp::load_json_doc` with one field and no center. -/
def RangeOp.load (cfg : ManagerConfig term vec enc num) (rangeOut : Bool)
    (field : Str) (conds : RangeConds) : Option (FilterOp num) :=
  if conds.gte.isNone ∧ conds.gt.isNone ∧ conds.lte.isNone ∧
      conds.lt.isNone then
    none
  else
    (RangeOp.loadSide cfg.numbers conds.gte conds.gt cfg.lowest).bind
      fun lower =>
        (RangeOp.loadSide cfg.numbers conds.lte conds.lt cfg.largest).map
          fun upper =>
            .range rangeOut field upper.1 upper.2 lower.1 lower.2

namespace RangeConds

/-- Every side is given once at most, by numbers that are read as they stand. -/
structure Plain (reader exact : NumberReader num) (conds : RangeConds) :
    Prop where
  lower : conds.gte = none ∨ conds.gt = none
  upper : conds.lte = none ∨ conds.lt = none
  readsLower : forall v, v ∈ conds.gte.toList ++ conds.gt.toList ->
    v.number reader = v.number exact
  readsUpper : forall v, v ∈ conds.lte.toList ++ conds.lt.toList ->
    v.number reader = v.number exact

/-- A number keeps the bounds that are given. -/
structure Holds (exact : NumberReader num) (conds : RangeConds) (x : num) :
    Prop where
  gte : forall v y, conds.gte = some v -> v.number exact = some y -> y ≤ x
  gt : forall v y, conds.gt = some v -> v.number exact = some y -> y < x
  lte : forall v y, conds.lte = some v -> v.number exact = some y -> x ≤ y
  lt : forall v y, conds.lt = some v -> v.number exact = some y -> x < y

end RangeConds

/-- Numbers of declared fields are read as they stand, and lie strictly between
the least and the greatest double. -/
def ReadExactly (cfg : ManagerConfig term vec enc num)
    (exact : NumberReader num) (items : Assoc Str FieldType)
    (doc : Document) : Prop :=
  forall field v t, (field, v) ∈ doc -> items.find field = some t ->
    (t = .int64 ∨ t = .float32) ->
      v.number cfg.numbers = v.number exact ∧
        forall x, v.number exact = some x -> cfg.lowest < x ∧ x < cfg.largest

theorem parseDirSemanticPara_ge (para : Option Int) :
    -1 ≤ parseDirSemanticPara para := by
  cases para with
  | none => exact Int.le_refl _
  | some d => exact Int.le_max_left _ _

def IndexManager.Selects (cfg : ManagerConfig term vec enc num)
    (m : IndexManager enc value num) (filter : FilterOp num) (o : Nat) : Prop :=
  o ∈ (m.calculateFilterBitmap cfg filter).read

/-- What the filters of an index say about the stored fields, given the numbers
that texts stand for. -/
structure FiltersExact (cfg : ManagerConfig term vec enc num)
    (exact : NumberReader num) (items : Assoc Str FieldType)
    (m : IndexManager enc value num) (fields : Label -> Option (Document)) : Prop where
  alive : forall label, fields label ≠ none <-> 0 ≤ m.offsetOf cfg label
  value : forall label doc (o : Nat), fields label = some doc ->
    m.offsetOf cfg label = o ->
    forall field t c para, items.find field = some t -> c.Fits t ->
      (m.Selects cfg (MustOp.load field [c] para) o <->
        exists v, Document.get doc field = some v ∧ v.Matches c)
  path : forall label doc (o : Nat), fields label = some doc ->
    m.offsetOf cfg label = o ->
    forall field q para, items.find field = some .path ->
      (forall p, Document.get doc field = some (.string p) ->
        (m.Selects cfg (MustOp.load field [.string q] para) o <->
          exists rest, DirIndex.splitPath p = DirIndex.splitPath q ++ rest ∧
            (parseDirSemanticPara para = -1 ∨
              (rest.length : Int) ≤ parseDirSemanticPara para))) ∧
      (Document.get doc field = none ->
        ¬ FieldBitmapGroupSet.AsksRoot [q] (parseDirSemanticPara para) ->
        ¬ m.Selects cfg (MustOp.load field [.string q] para) o)
  range : forall label doc (o : Nat), fields label = some doc ->
    m.offsetOf cfg label = o ->
    forall field t, items.find field = some t -> (t = .int64 ∨ t = .float32) ->
    forall rangeOut lt le gt ge,
      (m.Selects cfg (.range rangeOut field lt le gt ge) o <->
        exists v x, Document.get doc field = some v ∧
          v.number exact = some x ∧ InRange rangeOut lt le gt ge x)
  bounds : forall label doc (o : Nat), fields label = some doc ->
    m.offsetOf cfg label = o ->
    forall field t, items.find field = some t -> (t = .int64 ∨ t = .float32) ->
    forall conds filter, conds.Plain cfg.numbers exact ->
      RangeOp.load cfg false field conds = some filter ->
      (m.Selects cfg filter o <->
        exists v x, Document.get doc field = some v ∧
          v.number exact = some x ∧ conds.Holds exact x)
  deleted : forall o : Nat, (forall label, m.offsetOf cfg label ≠ o) ->
    forall filter, m.scalarIndex.LooksUp filter -> ¬ m.Selects cfg filter o

/-!
# Selection
-/

variable {cfg : ManagerConfig term vec enc num} {items : Assoc Str FieldType}
  {vocabulary : List TermKey} {m : IndexManager enc value num}
  {r : Records enc value}

theorem selects_iff {filter : FilterOp num} (h : ¬ filter.Valueless)
    (o : Nat) :
    m.Selects cfg filter o <->
      o ∈ filter.own (m.filterEnv cfg) m.scalarIndex := by
  rw [IndexManager.Selects, IndexManager.calculateFilterBitmap,
    FilterOp.calcBitmap_none h, FilterOp.own]

theorem own_of_selects {filter : FilterOp num} {o : Nat}
    (h : m.Selects cfg filter o) :
    o ∈ filter.own (m.filterEnv cfg) m.scalarIndex := by
  by_cases hvalue : filter.Valueless
  · rw [IndexManager.Selects, IndexManager.calculateFilterBitmap,
      FilterOp.calcBitmap, FilterOp.calcWith_valueless hvalue] at h
    cases h
  · exact (selects_iff hvalue o).mp h

theorem selects_load (field : Str) (c : Cond) (para : Option Int) (o : Nat) :
    m.Selects cfg (MustOp.load field [c] para) o <->
      o ∈ (FilterOp.must field [c.text] (parseDirSemanticPara para)).own
        (m.filterEnv cfg) m.scalarIndex := by
  apply selects_iff
  show ¬ [c.text] = []
  exact cons_ne_nil _ _

omit [LinearOrder num] in
private theorem rows_at {rows : Nat -> FieldsDict num}
    (hfiles : Files cfg.numbers r rows) {label : Label} {doc : Document}
    {e : Entry enc value} (hlive : r.catalog.live label = some e)
    (hdoc : r.fields label = some doc) (htyped : Document.Typed items doc)
    (hplain : Document.Plain items doc) (field : Str) :
    rowTexts rows field e.offset =
        ((get doc field).bind fun v =>
          (FieldsDict.flatten cfg.numbers v).1) ∧
      rowNumbers rows field e.offset =
        ((get doc field).bind fun v => v.number cfg.numbers) := by
  have hfind := FieldsDict.find_parseFromJson cfg.numbers hplain.names
    htyped.once field
  rw [rowTexts, rowNumbers, hfiles.live label e doc hlive hdoc, hfind.1, hfind.2]
  refine ⟨rfl, ?_⟩
  congr 1
  funext v
  exact flatten_number cfg.numbers v

/-!
# Bounds
-/

variable {exact : NumberReader num}

omit [LinearOrder num] in
/-- One side of a range asks what its members ask. -/
theorem RangeOp.loadSide_iff {reader : NumberReader num}
    {inclusive strict : Option Json} {far : num} {side : num × Bool}
    (hload : RangeOp.loadSide reader inclusive strict far = some side)
    (honce : inclusive = none ∨ strict = none)
    (hreads : forall v, v ∈ inclusive.toList ++ strict.toList ->
      v.number reader = v.number exact)
    (keeps : Bool -> num -> Prop) (hfar : keeps false far) :
    keeps side.2 side.1 <->
      (forall v y, inclusive = some v -> v.number exact = some y ->
        keeps true y) ∧
      forall v y, strict = some v -> v.number exact = some y ->
        keeps false y := by
  have hmember : forall {v : Json} {incl : Bool},
      ((v.number reader).map fun x => (x, incl)) = some side ->
      v.number reader = v.number exact ->
      (keeps side.2 side.1 <->
        forall w y, some v = some w -> w.number exact = some y ->
          keeps incl y) := by
    intro v incl hside hread
    rw [hread] at hside
    rcases map_eq_some_iff.mp hside with ⟨x, hx, heq⟩
    rw [← heq]
    constructor
    · intro hkeeps w y hw hy
      cases hw
      rw [hx] at hy
      cases hy
      exact hkeeps
    · intro hall
      exact hall v x rfl hx
  cases inclusive with
  | some v =>
    rcases honce with hnone | hnone
    · cases hnone
    · rw [hnone] at hload hreads ⊢
      rw [hmember hload (hreads v (by simp))]
      simp
  | none =>
    cases strict with
    | some v =>
      rw [hmember hload (hreads v (by simp))]
      simp
    | none =>
      cases hload
      simp [hfar]

omit [LinearOrder num] in
theorem RangeOp.load_eq {conds : RangeConds} {rangeOut : Bool} {field : Str}
    {filter : FilterOp num}
    (h : RangeOp.load cfg rangeOut field conds = some filter) :
    exists lt le gt ge, filter = .range rangeOut field lt le gt ge := by
  rw [RangeOp.load] at h
  split at h
  · cases h
  rcases bind_eq_some_iff.mp h with ⟨lower, _, h⟩
  rcases map_eq_some_iff.mp h with ⟨upper, _, heq⟩
  exact ⟨_, _, _, _, heq.symm⟩

theorem RangeOp.load_inRange {conds : RangeConds} {field : Str}
    {lt gt x : num} {le ge : Bool}
    (h : RangeOp.load cfg false field conds =
      some (.range false field lt le gt ge))
    (hplain : conds.Plain cfg.numbers exact)
    (hlow : cfg.lowest < x) (hhigh : x < cfg.largest) :
    InRange false lt le gt ge x <-> conds.Holds exact x := by
  rw [RangeOp.load] at h
  split at h
  · cases h
  rcases bind_eq_some_iff.mp h with ⟨lower, hlower, h⟩
  rcases map_eq_some_iff.mp h with ⟨upper, hupper, heq⟩
  cases heq
  have habove := RangeOp.loadSide_iff hlower hplain.lower
    hplain.readsLower (fun incl y => Above incl y x) hlow
  have hbelow := RangeOp.loadSide_iff hupper hplain.upper
    hplain.readsUpper (fun incl y => Below incl y x) hhigh
  constructor
  · intro hin
    have hlower := habove.mp hin.1
    have hupper := hbelow.mp hin.2
    exact ⟨hlower.1, hlower.2, hupper.1, hupper.2⟩
  · intro hholds
    exact ⟨habove.mpr ⟨hholds.gte, hholds.gt⟩,
      hbelow.mpr ⟨hholds.lte, hholds.lt⟩⟩

/-!
# The state after a session
-/

theorem Keeps.filtersExact (h : Keeps cfg items vocabulary m r)
    (hnext : r.catalog.next < 2 ^ 31)
    (htyped : forall label doc, r.fields label = some doc ->
      Document.Typed items doc)
    (hplain : forall label doc, r.fields label = some doc ->
      Document.Plain items doc)
    (hreads : forall label doc, r.fields label = some doc ->
      ReadExactly cfg exact items doc) :
    FiltersExact cfg exact items m r.fields := by
  have hoffset := offset_of_faithful (h.faithful hnext)
  rcases h.scalar with ⟨rows, hexact, hfiles⟩
  have hlive : forall label doc (o : Nat), r.fields label = some doc ->
      m.offsetOf cfg label = o ->
      exists e, r.catalog.live label = some e ∧ o = e.offset := by
    intro label doc o hdoc ho
    cases hcase : r.catalog.live label with
    | none =>
      rw [(h.known label).mp hcase] at hdoc
      cases hdoc
    | some e =>
      rw [hoffset, hcase] at ho
      exact ⟨e, rfl, (Int.ofNat_inj.mp ho).symm⟩
  have hrange : forall label doc (o : Nat), r.fields label = some doc ->
      m.offsetOf cfg label = o -> forall field t,
      items.find field = some t -> (t = .int64 ∨ t = .float32) ->
      forall rangeOut lt le gt ge,
      (m.Selects cfg (.range rangeOut field lt le gt ge) o <->
        exists v x, Document.get doc field = some v ∧
          v.number exact = some x ∧ InRange rangeOut lt le gt ge x) := by
    intro label doc o hdoc ho field t hitem ht rangeOut lt le gt ge
    rcases hlive label doc o hdoc ho with ⟨e, he, heq⟩
    have hrow := (rows_at hfiles he hdoc (htyped label doc hdoc)
      (hplain label doc hdoc) field).2
    have htype : t.getTypeId ≠ .unknown := by
      rcases ht with ht | ht
      · rw [ht]
        decide
      · rw [ht]
        decide
    have hread : forall v, get doc field = some v ->
        v.number cfg.numbers = v.number exact := fun v hv =>
      (hreads label doc hdoc field v t (mem_of_get hv) hitem ht).1
    rw [selects_iff id, hexact.mem_range hitem htype, heq, hrow]
    constructor
    · intro hin
      rcases hin with ⟨x, hx, hin⟩
      rcases bind_eq_some_iff.mp hx with ⟨v, hv, hnumber⟩
      rw [hread v hv] at hnumber
      exact ⟨v, x, hv, hnumber, hin⟩
    · intro hin
      rcases hin with ⟨v, x, hv, hnumber, hin⟩
      rw [← hread v hv] at hnumber
      exact ⟨x, bind_eq_some_iff.mpr ⟨v, hv, hnumber⟩, hin⟩
  constructor
  · intro label
    rw [hoffset]
    cases hcase : r.catalog.live label with
    | none => simp [(h.known label).mp hcase]
    | some e =>
      have hsome : r.fields label ≠ none := by
        intro hnone
        rw [(h.known label).mpr hnone] at hcase
        cases hcase
      simp [hsome]
  · intro label doc o hdoc ho field t c para hitem hfits
    rcases hlive label doc o hdoc ho with ⟨e, he, heq⟩
    have hpath : t ≠ .path := by
      intro hpath
      rw [hpath] at hfits
      cases c with
      | _ => exact hfits
    have htype : t.getTypeId ≠ .unknown := by
      intro hunknown
      cases t with
      | unsupported =>
        cases c with
        | _ => exact hfits
      | _ => cases hunknown
    have hrow := (rows_at hfiles he hdoc (htyped label doc hdoc)
      (hplain label doc hdoc) field).1
    rw [selects_load, hexact.mem_must hitem htype hpath, heq, hrow]
    have hkey : forall v, get doc field = some v ->
        ((exists text, (FieldsDict.flatten cfg.numbers v).1 = some text ∧
          c.text ∈ fieldKeys false text) <-> v.Matches c) := by
      intro v hv
      have hmem := mem_of_get hv
      have hadmits := (htyped label doc hdoc).admits field v t hmem hitem
      have hkeys := mem_fieldKeys_iff cfg.numbers hadmits
        ((hplain label doc hdoc).values field v t hmem hitem)
        (fun heq => htype (by rw [heq]; rfl)) c.text
      rw [decide_eq_false hpath] at hkeys
      rw [hkeys, ← text_mem_texts_iff hadmits hfits]
      simp [fieldKey, hfits.text_ne_nil]
    cases hget : get doc field with
    | none => simp
    | some v =>
      simp only [mem_singleton, exists_eq_left, bind_some,
        some.injEq, exists_eq_left']
      exact hkey v hget
  · intro label doc o hdoc ho field q para hitem
    rcases hlive label doc o hdoc ho with ⟨e, he, heq⟩
    have hrow := (rows_at hfiles he hdoc (htyped label doc hdoc)
      (hplain label doc hdoc) field).1
    constructor
    · intro p hget
      have hmem := mem_of_get hget
      have htext : PlainText p :=
        (hplain label doc hdoc).values field (.string p) .path hmem hitem
      have hstored : rowTexts rows field e.offset = some p := by
        rw [hrow, hget]
        exact congrArg some (cString_of_notMem htext.2)
      have hkeys : fieldKeys true p =
          [normalizePathKey p] :=
        fieldKeys_of_notMem htext.1
      rw [selects_load, hexact.mem_mustPath hitem, heq, hstored]
      have hdepth : forall rest : List Str,
          InDepth (parseDirSemanticPara para) 0 rest <->
            parseDirSemanticPara para = -1 ∨
              (rest.length : Int) ≤ parseDirSemanticPara para := by
        intro rest
        have hge := parseDirSemanticPara_ge para
        rw [InDepth, Nat.zero_add]
        constructor
        · intro hin
          rcases hin with hnil | hin
          · rw [hnil, length_nil]
            omega
          · exact hin
        · exact .inr
      by_cases hroot : FieldBitmapGroupSet.AsksRoot
          [(Cond.string q).text] (parseDirSemanticPara para)
      · have hsized := hexact.sized e.offset field
          (.inl (by rw [hstored]; exact some_ne_none p))
        have hsplit : DirIndex.splitPath q = [] := by
          rcases hroot.2 with ⟨key, hkey, hslash | hnil⟩
          · rw [← show key = q from mem_singleton.mp hkey, hslash]
            rfl
          · rw [← show key = q from mem_singleton.mp hkey, hnil]
            rfl
        constructor
        · intro _
          refine ⟨DirIndex.splitPath p, ?_, .inl hroot.1⟩
          rw [hsplit]
          rfl
        · intro _
          exact .inl ⟨hroot, hsized⟩
      · constructor
        · intro hin
          rcases hin with ⟨hroot', _⟩ |
            ⟨_, key, hkey, text, htext', k, hk, rest, hrest, hin⟩
          · exact absurd hroot' hroot
          · cases htext'
            rw [hkeys] at hk
            rw [mem_singleton.mp hk, splitPath_normalize,
              show key = q from mem_singleton.mp hkey] at hrest
            exact ⟨rest, hrest, (hdepth rest).mp hin⟩
        · intro hin
          rcases hin with ⟨rest, hrest, hin⟩
          refine .inr ⟨hroot, q, mem_singleton.mpr rfl, p, rfl,
            normalizePathKey p, ?_, rest, ?_,
            (hdepth rest).mpr hin⟩
          · rw [hkeys]
            exact mem_singleton.mpr rfl
          · rw [splitPath_normalize]
            exact hrest
    · intro hget hroot
      rw [selects_load, hexact.mem_mustPath hitem, heq, hrow, hget]
      intro hin
      rcases hin with ⟨hroot', _⟩ | ⟨_, key, _, text, htext, _⟩
      · exact hroot hroot'
      · cases htext
  · exact hrange
  · intro label doc o hdoc ho field t hitem ht conds filter hconds hload
    have hbetween : forall v x, get doc field = some v ->
        v.number exact = some x -> cfg.lowest < x ∧ x < cfg.largest := by
      intro v x hv
      exact (hreads label doc hdoc field v t (mem_of_get hv) hitem ht).2 x
    have hselect := fun lt le gt ge =>
      hrange label doc o hdoc ho field t hitem ht false lt le gt ge
    constructor
    · intro hin
      rcases RangeOp.load_eq hload with ⟨lt, le, gt, ge, heq⟩
      rw [heq, hselect] at hin
      rcases hin with ⟨v, x, hv, hx, hin⟩
      have hfar := hbetween v x hv hx
      rw [heq] at hload
      exact ⟨v, x, hv, hx,
        (RangeOp.load_inRange hload hconds hfar.1 hfar.2).mp hin⟩
    · intro hin
      rcases hin with ⟨v, x, hv, hx, hholds⟩
      have hfar := hbetween v x hv hx
      rcases RangeOp.load_eq hload with ⟨lt, le, gt, ge, heq⟩
      rw [heq, hselect]
      rw [heq] at hload
      exact ⟨v, x, hv, hx,
        (RangeOp.load_inRange hload hconds hfar.1 hfar.2).mpr hholds⟩
  · intro o hdead filter hlooks hselects
    have hnone : rows o = FieldsDict.none := by
      apply hfiles.dead
      intro label e he heq
      apply hdead label
      rw [hoffset, he]
      exact congrArg Nat.cast heq
    rcases hexact.row_of_looksUp hlooks (own_of_selects hselects) with
      ⟨field, htext | hnumber⟩
    · rw [rowTexts, hnone] at htext
      exact htext (Assoc.find_empty field)
    · rw [rowNumbers, hnone] at hnumber
      exact hnumber (Assoc.find_empty field)

/-!
# Sessions
-/

/-- After a session in which the old fields are those that were stored, the
texts of declared fields hold no semicolon and no NUL, and their numbers are read
as they stand, the filters are exact. -/
theorem index_filters_exact [Add value] [Zero value]
    (cfg : ManagerConfig term vec enc num) (exact : NumberReader num) (items : Assoc Str FieldType)
    (maxElementCount : Nat) (calls : List (Call term vec value))
    (vocabulary : List TermKey)
    (hcount : (requestsOf cfg.store calls).length < 2 ^ 31)
    (hlen : vocabulary.length < 2 ^ 32)
    (hterms : forall call, call ∈ calls -> call.terms cfg.store ⊆ vocabulary)
    (hold : (Records.empty : Records enc value).OldAsStored cfg.store
      (requestsOf cfg.store calls))
    (htyped : forall data, .add data ∈ requestsOf cfg.store calls ->
      Document.Typed items data.fields)
    (hplain : forall data, .add data ∈ requestsOf cfg.store calls ->
      Document.Plain items data.fields)
    (hreads : forall data, .add data ∈ requestsOf cfg.store calls ->
      ReadExactly cfg exact items data.fields) :
    FiltersExact cfg exact items
      ((IndexManager.new cfg maxElementCount items :
        IndexManager enc value num).run cfg calls)
      ((Records.empty : Records enc value).run cfg.store
        (requestsOf cfg.store calls)).fields := by
  have hbound : (Records.empty : Records enc value).catalog.next +
      (requestsOf cfg.store calls).length < 2 ^ 31 := by
    show 0 + _ < _
    rwa [Nat.zero_add]
  have hkeeps := (keeps_new cfg items vocabulary maxElementCount :
    Keeps cfg items vocabulary _ (Records.empty : Records enc value)).run
    hlen calls hbound hterms hold
  have hnext := @next_run _ _ _ _ _ cfg _
    (Records.empty : Records enc value) (requestsOf cfg.store calls)
  apply hkeeps.filtersExact (Nat.lt_of_le_of_lt hnext hbound)
  · intro label doc hdoc
    rcases fields_run hdoc with hempty | ⟨data, hdata, hfields⟩
    · cases hempty
    · rw [← hfields]
      exact htyped data hdata
  · intro label doc hdoc
    rcases fields_run hdoc with hempty | ⟨data, hdata, hfields⟩
    · cases hempty
    · rw [← hfields]
      exact hplain data hdata
  · intro label doc hdoc
    rcases fields_run hdoc with hempty | ⟨data, hdata, hfields⟩
    · cases hempty
    · rw [← hfields]
      exact hreads data hdata

/-- Integers, and of any other text the digits before the point. -/
def wholeNumbers : NumberReader Int where
  toDouble := id
  getDouble := fun text =>
    Nat.ofDigitChars 10 (text.takeWhile Char.isDigit) 0

def largestDouble : Int :=
  (2 ^ 53 - 1) * (2 ^ 171 * (2 ^ 200) ^ 4)

def sampleManager : ManagerConfig Nat Nat Nat Int where
  store := sampleConfig false
  numbers := wholeNumbers
  lowest := -largestDouble
  largest := largestDouble
  arith := plainEnv.arith
  regex := fun _ => none

def sampleItems : Assoc Str FieldType :=
  Assoc.ofList [(['t'], .string), (['p'], .path), (['n'], .int64),
    (['w'], .float32)]

def sampleAdd (label : Label) (fields oldFields : Document) :
    AddDataRequest Nat Nat Nat where
  label := label
  vector := some 10
  sparseRawTerms := []
  sparseValues := []
  fields := fields
  oldFields := oldFields

/-- A record is added, updated and removed beside another one. -/
def sampleCalls : List (Call Nat Nat Nat) :=
  [.addData [sampleAdd 1 [(['t'], .string ['x']), (['n'], .int64 5)] [],
      sampleAdd 2 [(['p'], .string ['a', '/', 'b']),
        (['w'], .double ['3', '.', '0'])] []],
    .addData [sampleAdd 1 [(['t'], .string ['y'])]
      [(['t'], .string ['x']), (['n'], .int64 5)]],
    .deleteData [⟨2, [(['p'], .string ['a', '/', 'b']),
      (['w'], .double ['3', '.', '0'])]⟩]]

theorem index_filters_exact_sample :
    FiltersExact sampleManager wholeNumbers sampleItems
      ((IndexManager.new sampleManager 4 sampleItems :
        IndexManager Nat Nat Int).run sampleManager sampleCalls)
      ((Records.empty : Records Nat Nat).run sampleManager.store
        (requestsOf sampleManager.store sampleCalls)).fields := by
  have hadds : forall data, .add data ∈ requestsOf sampleManager.store
      sampleCalls -> data = sampleAdd 1 [(['t'], .string ['x']),
          (['n'], .int64 5)] [] ∨
        data = sampleAdd 2 [(['p'], .string ['a', '/', 'b']),
          (['w'], .double ['3', '.', '0'])] [] ∨
        data = sampleAdd 1 [(['t'], .string ['y'])]
          [(['t'], .string ['x']), (['n'], .int64 5)] := by
    intro data hdata
    simpa [requestsOf, sampleCalls, Call.requests, AddDataRequest.accepted,
      Ledger.givenSparse, sampleManager, sampleConfig] using hdata
  have hmembers : forall data, .add data ∈ requestsOf
      sampleManager.store sampleCalls -> forall field v t,
      (field, v) ∈ data.fields -> sampleItems.find field = some t ->
      (v = .string ['x'] ∧ t = .string) ∨ (v = .string ['y'] ∧ t = .string) ∨
        (v = .int64 5 ∧ t = .int64) ∨
          (v = .string ['a', '/', 'b'] ∧ t = .path) ∨
            (v = .double ['3', '.', '0'] ∧ t = .float32) := by
    intro data hdata field v t hmem hitem
    have htag : sampleItems.find ['t'] = some .string := by decide
    have hpath : sampleItems.find ['p'] = some .path := by decide
    have hnumber : sampleItems.find ['n'] = some .int64 := by decide
    have hweight : sampleItems.find ['w'] = some .float32 := by decide
    rcases hadds data hdata with heq | heq | heq
    all_goals
      rw [heq] at hmem
      simp only [sampleAdd, List.mem_cons, List.not_mem_nil, or_false,
        Prod.mk.injEq] at hmem
    · rcases hmem with ⟨hf, hv⟩ | ⟨hf, hv⟩
      · rw [hf, htag] at hitem
        exact .inl ⟨hv, (Option.some.inj hitem).symm⟩
      · rw [hf, hnumber] at hitem
        exact .inr (.inr (.inl ⟨hv, (Option.some.inj hitem).symm⟩))
    · rcases hmem with ⟨hf, hv⟩ | ⟨hf, hv⟩
      · rw [hf, hpath] at hitem
        exact .inr (.inr (.inr (.inl ⟨hv, (Option.some.inj hitem).symm⟩)))
      · rw [hf, hweight] at hitem
        exact .inr (.inr (.inr (.inr ⟨hv, (Option.some.inj hitem).symm⟩)))
    · rw [hmem.1, htag] at hitem
      exact .inr (.inl ⟨hmem.2, (Option.some.inj hitem).symm⟩)
  have hnames : forall data, .add data ∈ requestsOf
      sampleManager.store sampleCalls ->
      (data.fields.map Prod.fst).Nodup ∧
        forall m, m ∈ data.fields -> Char.ofNat 0 ∉ m.1 := by
    intro data hdata
    rcases hadds data hdata with heq | heq | heq
    · rw [heq]
      decide
    · rw [heq]
      decide
    · rw [heq]
      decide
  apply index_filters_exact sampleManager wholeNumbers sampleItems 4 sampleCalls []
    (by decide) (by decide)
  · intro call hcall
    simp only [sampleCalls, List.mem_cons, List.not_mem_nil, or_false] at hcall
    rcases hcall with heq | heq | heq
    · rw [heq]
      decide
    · rw [heq]
      decide
    · rw [heq]
      decide
  · exact ⟨rfl, rfl, rfl, rfl, trivial⟩
  · intro data hdata
    refine ⟨(hnames data hdata).1, ?_⟩
    intro field v t hmem hitem
    rcases hmembers data hdata field v t hmem hitem with ⟨hv, ht⟩ | ⟨hv, ht⟩ |
      ⟨hv, ht⟩ | ⟨hv, ht⟩ | ⟨hv, ht⟩
    all_goals rw [hv, ht]
    · exact List.cons_ne_nil _ _
    · exact List.cons_ne_nil _ _
    · trivial
    · exact List.cons_ne_nil _ _
    · trivial
  · intro data hdata
    refine ⟨(hnames data hdata).2, ?_⟩
    intro field v t hmem hitem
    rcases hmembers data hdata field v t hmem hitem with ⟨hv, _⟩ | ⟨hv, _⟩ |
      ⟨hv, _⟩ | ⟨hv, _⟩ | ⟨hv, _⟩
    all_goals rw [hv]
    · exact ⟨by decide, by decide⟩
    · exact ⟨by decide, by decide⟩
    · trivial
    · exact ⟨by decide, by decide⟩
    · trivial
  · intro data hdata field v t hmem hitem _
    refine ⟨rfl, ?_⟩
    rcases hmembers data hdata field v t hmem hitem with ⟨hv, _⟩ | ⟨hv, _⟩ |
      ⟨hv, _⟩ | ⟨hv, _⟩ | ⟨hv, _⟩
    all_goals
      rw [hv]
      intro x hx
      cases hx
    · decide +kernel
    · decide +kernel

instance (cfg : ManagerConfig term vec enc num)
    (m : IndexManager enc value num) (filter : FilterOp num) (o : Nat) :
    Decidable (m.Selects cfg filter o) := by
  unfold IndexManager.Selects
  infer_instance

/-- A tag with a semicolon is filed under its two halves. -/
theorem semicolon_splits_tag :
    ¬ FiltersExact sampleManager wholeNumbers sampleItems
      ((IndexManager.new sampleManager 4 sampleItems :
        IndexManager Nat Nat Int).run sampleManager
          [.addData [sampleAdd 1 [(['t'], .string ['a', ';', 'b'])] []]])
      ((Records.empty : Records Nat Nat).run sampleManager.store
        (requestsOf sampleManager.store
          [.addData [sampleAdd 1 [(['t'], .string ['a', ';', 'b'])]
            []]])).fields := by
  intro h
  have hexact := (h.value 1 [(['t'], .string ['a', ';', 'b'])] 0 rfl
    (by decide +kernel) ['t'] .string (.string ['a', ';', 'b']) none
    (by decide) (List.cons_ne_nil _ _)).mpr ⟨.string ['a', ';', 'b'], rfl, rfl⟩
  exact absurd hexact (by decide +kernel)

end Index
end OpenViking
