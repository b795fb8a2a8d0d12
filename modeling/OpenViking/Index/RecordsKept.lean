import OpenViking.Index.IndexManager
import OpenViking.Scalar.ScalarIndexCorrect

/-!
# The manager keeps the records

The store keeps the catalog of the records, and the scalar index is exact for
the rows in which every live label files its fields.  One element of a call
keeps both, and so does a session.
-/

namespace OpenViking
namespace Index

open Paths Scalar Function List IndexManager
open OpenViking.Vector

variable {term vec enc value num : Type} [LinearOrder num]

/-- Every live label files its fields under its offset, and no other offset
has fields. -/
structure Files (reader : NumberReader num) (r : Records enc value)
    (rows : Nat -> FieldsDict num) : Prop where
  live : forall label e doc, r.catalog.live label = some e ->
    r.fields label = some doc ->
    rows e.offset = FieldsDict.parseFromJson reader doc
  dead : forall o, (forall label e, r.catalog.live label = some e ->
    e.offset ≠ o) -> rows o = FieldsDict.none

structure Keeps (cfg : ManagerConfig term vec enc num)
    (items : Assoc Str FieldType) (vocabulary : List TermKey)
    (m : IndexManager enc value num) (r : Records enc value) : Prop where
  store : exists rows, Agrees cfg.store m.vectorIndex r.catalog rows
  terms : m.vectorIndex.terms ⊆ vocabulary
  catalog : r.catalog.Ok
  known : forall label, r.catalog.live label = none <-> r.fields label = none
  scalar : exists rows, m.scalarIndex.Exact items rows ∧
    Files cfg.numbers r rows

variable {cfg : ManagerConfig term vec enc num} {items : Assoc Str FieldType}
  {vocabulary : List TermKey} {m : IndexManager enc value num}
  {r : Records enc value}

theorem Keeps.faithful (h : Keeps cfg items vocabulary m r)
    (hnext : r.catalog.next < 2 ^ 31) :
    Faithful cfg.store m.vectorIndex r.catalog := by
  rcases h.store with ⟨rows, hagrees⟩
  exact hagrees.faithful h.catalog hnext

omit [LinearOrder num] in
theorem offset_of_faithful {m : IndexManager enc value num}
    {c : Catalog enc value} (h : Faithful cfg.store m.vectorIndex c)
    (label : Label) :
    m.offsetOf cfg label =
      match c.live label with
      | some e => (e.offset : Int)
      | none => -1 := by
  cases hlive : c.live label with
  | some e => exact (h.offsetOf label e hlive).1
  | none =>
    rw [offsetOf, FlatStore.getOffsetByLabel,
      (h.live label).mpr hlive]

theorem Keeps.doc (h : Keeps cfg items vocabulary m r) {label : Label}
    {e : Entry enc value} (hlive : r.catalog.live label = some e) :
    exists doc, r.fields label = some doc := by
  apply Option.ne_none_iff_exists'.mp
  intro hnone
  rw [(h.known label).mpr hnone] at hlive
  cases hlive

theorem Keeps.offset_inj (h : Keeps cfg items vocabulary m r)
    {label other : Label} {e e' : Entry enc value}
    (hlive : r.catalog.live label = some e)
    (hother : r.catalog.live other = some e') (heq : e'.offset = e.offset) :
    other = label := by
  apply h.catalog.owner hlive
  rw [← heq]
  exact h.catalog.used other e' hother

/-!
# New fields
-/

omit [LinearOrder num] in
/-- The label is alive and its offset is filed anew. -/
private theorem files_update {reader : NumberReader num}
    {rows : Nat -> FieldsDict num} (hfiles : Files reader r rows)
    {catalog : Catalog enc value} {label : Label} {e : Entry enc value}
    (hlive : catalog.live label = some e)
    (hsame : forall other, other ≠ label ->
      catalog.live other = r.catalog.live other)
    (howner : forall other e', other ≠ label ->
      r.catalog.live other = some e' -> e'.offset ≠ e.offset)
    (hold : forall e', r.catalog.live label = some e' ->
      e'.offset = e.offset)
    (doc : Document) :
    Files reader ⟨catalog, update r.fields label (some doc)⟩
      (update rows e.offset
        (FieldsDict.parseFromJson reader doc)) := by
  constructor
  · intro other e' doc' hother hdoc
    by_cases heq : other = label
    · rw [heq] at hother hdoc
      change catalog.live label = some e' at hother
      rw [hlive] at hother
      cases hother
      change update r.fields label (some doc) label = some doc' at hdoc
      rw [update_self] at hdoc
      cases hdoc
      exact update_self ..
    · change catalog.live other = some e' at hother
      rw [hsame other heq] at hother
      change update r.fields label (some doc) other = some doc' at hdoc
      rw [update_of_ne heq] at hdoc
      rw [update_of_ne (howner other e' heq hother)]
      exact hfiles.live other e' doc' hother hdoc
  · intro o ho
    have hne : o ≠ e.offset := fun heq => ho label e hlive heq.symm
    rw [update_of_ne hne]
    apply hfiles.dead
    intro other e' hother
    by_cases heq : other = label
    · rw [heq] at hother
      rw [hold e' hother]
      exact Ne.symm hne
    · apply ho other e'
      change catalog.live other = some e'
      rw [hsame other heq]
      exact hother

section Steps

variable [Add value] [Zero value]

omit [LinearOrder num] [Zero value] in
/-- What an accepted point does to the catalog: the label is alive, at its old
offset or at the next one, and the other labels stay as they were. -/
theorem addGiven_live {c : Catalog enc value}
    {data : AddDataRequest term vec value}
    (haccept : data.accepted cfg.store = true) :
    exists e, (c.addGiven cfg.store data.vector data.label
          (some ⟨some data.sparseRawTerms, data.sparseValues⟩)).live
        data.label = some e ∧
      (forall e', c.live data.label = some e' -> e'.offset = e.offset) ∧
      (c.live data.label = none -> e.offset = c.next) ∧
      (forall other, other ≠ data.label ->
        (c.addGiven cfg.store data.vector data.label
          (some ⟨some data.sparseRawTerms, data.sparseValues⟩)).live other =
          c.live other) ∧
      (c.addGiven cfg.store data.vector data.label
        (some ⟨some data.sparseRawTerms, data.sparseValues⟩)).next ≤
          c.next + 1 := by
  rcases Option.isSome_iff_exists.mp haccept with ⟨sparse, hgiven⟩
  rw [Catalog.addGiven, hgiven]
  simp only
  cases hlive : c.live data.label with
  | some old =>
    rw [Catalog.add_of_live hlive]
    refine ⟨_, update_self .., ?_, ?_, ?_, Nat.le_succ _⟩
    · intro e' he'
      cases he'
      rfl
    · intro hnone
      cases hnone
    · intro other hne
      exact update_of_ne hne ..
  | none =>
    rw [Catalog.add_of_new hlive]
    refine ⟨_, update_self .., ?_, fun _ => rfl, ?_, Nat.le_refl _⟩
    · intro e' he'
      cases he'
    · intro other hne
      exact update_of_ne hne ..

theorem Keeps.addRefused (h : Keeps cfg items vocabulary m r)
    (hnext : r.catalog.next < 2 ^ 31) (hlen : vocabulary.length < 2 ^ 32)
    {data : AddDataRequest term vec value}
    (hterms : callTerms cfg.store
      (some ⟨some data.sparseRawTerms, data.sparseValues⟩) ⊆ vocabulary)
    (hrefuse : data.accepted cfg.store = false) :
    exists e m', m.addOne cfg data = (.error e, m') ∧
      Keeps cfg items vocabulary m' r := by
  rcases h.store with ⟨rows, hagrees⟩
  have hadd := addPoint_agrees hagrees h.catalog hnext hlen h.terms data.vector
    data.label (some ⟨some data.sparseRawTerms, data.sparseValues⟩) hterms
  have hgiven : Ledger.givenSparse cfg.store
      (some ⟨some data.sparseRawTerms, data.sparseValues⟩) = none :=
    Option.isSome_eq_false_iff.mp hrefuse |> Option.isNone_iff_eq_none.mp
  rw [Catalog.addGiven, hgiven] at hadd
  rw [addOne]
  cases hout : m.vectorIndex.addPoint cfg.store data.vector data.label
      (some ⟨some data.sparseRawTerms, data.sparseValues⟩) with
  | mk result store =>
    rw [hout] at hadd
    cases result with
    | ok u => cases hadd.2.2
    | error e =>
      exact ⟨e, _, rfl, hadd.1, hadd.2.1, h.catalog, h.known, h.scalar⟩

theorem Keeps.addAccepted (h : Keeps cfg items vocabulary m r)
    (hnext : r.catalog.next + 1 < 2 ^ 31) (hlen : vocabulary.length < 2 ^ 32)
    {data : AddDataRequest term vec value}
    (hterms : callTerms cfg.store
      (some ⟨some data.sparseRawTerms, data.sparseValues⟩) ⊆ vocabulary)
    (haccept : data.accepted cfg.store = true)
    (hold : data.oldFields = (r.fields data.label).getD []) :
    exists m', m.addOne cfg data = (.ok (), m') ∧
      Keeps cfg items vocabulary m' (r.step cfg.store (.add data)) := by
  rcases h.store with ⟨rows, hagrees⟩
  have hadd := addPoint_agrees hagrees h.catalog (by omega) hlen h.terms
    data.vector data.label
    (some ⟨some data.sparseRawTerms, data.sparseValues⟩) hterms
  rcases @addGiven_live _ _ _ _ _ cfg _ r.catalog data haccept with
    ⟨e, hlive, hkept, hfresh, hsame, hgrown⟩
  have hcatalog : (r.catalog.addGiven cfg.store data.vector data.label
      (some ⟨some data.sparseRawTerms, data.sparseValues⟩)).Ok := by
    rw [Catalog.addGiven]
    split
    · exact h.catalog
    · exact h.catalog.add _ _ _
  rw [addOne]
  cases hout : m.vectorIndex.addPoint cfg.store data.vector data.label
      (some ⟨some data.sparseRawTerms, data.sparseValues⟩) with
  | mk result store =>
    rw [hout] at hadd
    cases result with
    | error e =>
      have hok := hadd.2.2
      rw [show (Ledger.givenSparse cfg.store
        (some ⟨some data.sparseRawTerms, data.sparseValues⟩)).isSome =
          true from haccept] at hok
      cases hok
    | ok u =>
      rcases hadd.1 with ⟨rows', hagrees'⟩
      have hoffset := @offset_of_faithful _ _ _ _ _ cfg
        { m with vectorIndex := store } _
        (hagrees'.faithful hcatalog (by omega)) data.label
      rw [hlive] at hoffset
      simp only [hoffset, Int.toNat_natCast]
      rw [if_neg (by omega)]
      refine ⟨_, rfl, ⟨rows', hagrees'⟩, hadd.2.1, hcatalog, ?_, ?_⟩
      · intro label
        show (r.catalog.addGiven _ _ _ _).live label = none <->
          update r.fields data.label (some data.fields) label = none
        by_cases heq : label = data.label
        · rw [heq, hlive, update_self]
          simp
        · rw [hsame label heq, update_of_ne heq]
          exact h.known label
      · rcases h.scalar with ⟨srows, hexact, hfiles⟩
        have hrow : srows e.offset =
            FieldsDict.parseFromJson cfg.numbers data.oldFields := by
          rw [hold]
          cases hbefore : r.catalog.live data.label with
          | some e' =>
            rcases h.doc hbefore with ⟨doc, hdoc⟩
            rw [hdoc, ← hkept e' hbefore]
            exact hfiles.live data.label e' doc hbefore hdoc
          | none =>
            rw [(h.known data.label).mp hbefore, hfresh hbefore]
            apply hfiles.dead
            intro other e' hother
            exact Nat.ne_of_lt (h.catalog.offset_lt hother)
        have hstep := hexact.addRowData e.offset
          (FieldsDict.parseFromJson cfg.numbers data.fields)
        rw [hrow] at hstep
        refine ⟨_, hstep, ?_⟩
        apply files_update hfiles hlive hsame _ hkept
        intro other e' hne hother
        cases hbefore : r.catalog.live data.label with
        | some old =>
          rw [← hkept old hbefore]
          intro heq
          exact hne (h.offset_inj hbefore hother heq)
        | none =>
          rw [hfresh hbefore]
          exact Nat.ne_of_lt (h.catalog.offset_lt hother)

omit [Add value] in
/-- An element of `delete_data`. -/
theorem Keeps.delete [Add value] (h : Keeps cfg items vocabulary m r)
    (hnext : r.catalog.next < 2 ^ 31) {data : DeleteDataRequest}
    (hold : data.oldFields = (r.fields data.label).getD []) :
    exists m', m.deleteOne cfg data = (.ok (), m') ∧
      Keeps cfg items vocabulary m'
        (r.step cfg.store (.delete data : Request term vec value)) := by
  have hoffset := offset_of_faithful (h.faithful hnext) data.label
  rw [deleteOne]
  cases hlive : r.catalog.live data.label with
  | none =>
    rw [hlive] at hoffset
    simp only [hoffset]
    rw [if_pos (by decide)]
    have hsame : r.step cfg.store
        (.delete data : Request term vec value) = r := by
      have hcatalog : r.catalog.remove data.label = r.catalog := by
        rw [Catalog.remove]
        rw [← hlive, update_eq_self data.label r.catalog.live]
      have hfields : update r.fields data.label none =
          r.fields := by
        rw [← (h.known data.label).mp hlive]
        exact update_eq_self data.label r.fields
      rw [Records.step, hcatalog, hfields]
    exact ⟨m, rfl, by rw [hsame]; exact h⟩
  | some e =>
    rw [hlive] at hoffset
    simp only [hoffset, Int.toNat_natCast]
    rw [if_neg (by omega)]
    rcases h.store with ⟨rows, hagrees⟩
    have hle := hagrees.lists.length_le h.catalog hagrees.store.offsets.nodup
    rcases removePoint_agrees hagrees (by omega) data.label with
      ⟨rows', s', hs', hagrees', hterms'⟩
    simp only [hs']
    have hstepLive : forall other, other ≠ data.label ->
        (r.catalog.remove data.label).live other = r.catalog.live other :=
      fun other hne => update_of_ne hne ..
    refine ⟨_, rfl, ⟨rows', hagrees'⟩, ?_, h.catalog.remove data.label, ?_, ?_⟩
    · rw [hterms']
      exact h.terms
    · intro label
      show update r.catalog.live data.label none label = none <->
        update r.fields data.label none label = none
      by_cases heq : label = data.label
      · rw [heq, update_self, update_self]
        simp
      · rw [update_of_ne heq, update_of_ne heq]
        exact h.known label
    · rcases h.scalar with ⟨srows, hexact, hfiles⟩
      rcases h.doc hlive with ⟨doc, hdoc⟩
      have hrow : srows e.offset =
          FieldsDict.parseFromJson cfg.numbers data.oldFields := by
        rw [hold, hdoc]
        exact hfiles.live data.label e doc hlive hdoc
      have hstep := hexact.deleteRowData e.offset
      rw [hrow] at hstep
      refine ⟨_, hstep, ?_, ?_⟩
      · intro other e' doc' hother hdoc'
        have hne : other ≠ data.label := by
          intro heq
          rw [heq] at hother
          change update r.catalog.live data.label none data.label =
            some e' at hother
          rw [update_self] at hother
          cases hother
        change (r.catalog.remove data.label).live other = some e' at hother
        rw [hstepLive other hne] at hother
        change update r.fields data.label none other = some doc' at hdoc'
        rw [update_of_ne hne] at hdoc'
        have hoff : e'.offset ≠ e.offset :=
          fun heq => hne (h.offset_inj hlive hother heq)
        rw [update_of_ne hoff]
        exact hfiles.live other e' doc' hother hdoc'
      · intro o ho
        by_cases heq : o = e.offset
        · rw [heq]
          exact update_self ..
        rw [update_of_ne heq]
        apply hfiles.dead
        intro other e' hother
        by_cases hlabel : other = data.label
        · rw [hlabel, hlive] at hother
          cases hother
          exact Ne.symm heq
        · apply ho other e'
          change (r.catalog.remove data.label).live other = some e'
          rw [hstepLive other hlabel]
          exact hother

end Steps

/-!
# Sessions
-/

/-- The terms of all sparse data of a call, accepted or not. -/
def Call.terms (cfg : Vector.Config term vec enc) :
    Call term vec value -> List TermKey
  | .addData dataList => dataList.flatMap fun data =>
    callTerms cfg (some ⟨some data.sparseRawTerms, data.sparseValues⟩)
  | .deleteData _ => []

section Runs

variable [Add value]

omit [LinearOrder num] in
theorem next_step (r : Records enc value)
    (request : Request term vec value) :
    (r.step cfg.store request).catalog.next ≤ r.catalog.next + 1 := by
  cases request with
  | delete data => exact Nat.le_succ _
  | add data =>
    show (r.catalog.addGiven _ _ _ _).next ≤ _
    rw [Catalog.addGiven]
    split
    next => exact Nat.le_succ _
    next =>
      rw [Catalog.add]
      split
      · exact Nat.le_succ _
      · exact Nat.le_refl _

omit [LinearOrder num] in
theorem next_run (r : Records enc value)
    (requests : List (Request term vec value)) :
    (r.run cfg.store requests).catalog.next ≤
      r.catalog.next + requests.length := by
  induction requests generalizing r with
  | nil => exact Nat.le_refl _
  | cons request rest ih =>
    have hstep := @next_step _ _ _ _ _ cfg _ r request
    have hrest := ih (r.step cfg.store request)
    rw [Records.run, foldl_cons, length_cons]
    change ((r.step cfg.store request).run cfg.store rest).catalog.next ≤ _
    omega

omit [LinearOrder num] in
theorem Records.run_append (r : Records enc value)
    (xs ys : List (Request term vec value)) :
    r.run cfg.store (xs ++ ys) = (r.run cfg.store xs).run cfg.store ys :=
  foldl_append

omit [LinearOrder num] in
theorem oldAsStored_append (r : Records enc value)
    (xs ys : List (Request term vec value)) :
    r.OldAsStored cfg.store (xs ++ ys) <->
      r.OldAsStored cfg.store xs ∧
        (r.run cfg.store xs).OldAsStored cfg.store ys := by
  induction xs generalizing r with
  | nil => simp [Records.OldAsStored, Records.run]
  | cons request rest ih =>
    show _ ∧ (r.step cfg.store request).OldAsStored cfg.store (rest ++ ys) <->
      (_ ∧ (r.step cfg.store request).OldAsStored cfg.store rest) ∧
        ((r.step cfg.store request).run cfg.store rest).OldAsStored cfg.store ys
    rw [ih, and_assoc]

omit [LinearOrder num] in
/-- Fields that are stored were given by an addition. -/
theorem fields_run {r : Records enc value}
    {requests : List (Request term vec value)} {label : Label}
    {doc : Document}
    (h : (r.run cfg.store requests).fields label = some doc) :
    r.fields label = some doc ∨
      exists data, .add data ∈ requests ∧ data.fields = doc := by
  induction requests generalizing r with
  | nil => exact .inl h
  | cons request rest ih =>
    change ((r.step cfg.store request).run cfg.store rest).fields label =
      some doc at h
    rcases ih h with hstep | ⟨data, hdata, hfields⟩
    · cases request with
      | add data =>
        change update r.fields data.label (some data.fields)
          label = some doc at hstep
        by_cases heq : label = data.label
        · rw [heq, update_self] at hstep
          exact .inr ⟨data, mem_cons_self, Option.some.inj hstep⟩
        · rw [update_of_ne heq] at hstep
          exact .inl hstep
      | delete data =>
        change update r.fields data.label none label = some doc at hstep
        by_cases heq : label = data.label
        · rw [heq, update_self] at hstep
          cases hstep
        · rw [update_of_ne heq] at hstep
          exact .inl hstep
    · exact .inr ⟨data, mem_cons_of_mem _ hdata, hfields⟩

variable [Zero value]

private theorem Keeps.addList (h : Keeps cfg items vocabulary m r)
    (hlen : vocabulary.length < 2 ^ 32)
    (dataList : List (AddDataRequest term vec value))
    (hnext : r.catalog.next + ((Call.addData dataList).requests
      cfg.store).length < 2 ^ 31)
    (hterms : (Call.addData dataList : Call term vec value).terms
      cfg.store ⊆ vocabulary)
    (hold : r.OldAsStored cfg.store
      ((Call.addData dataList).requests cfg.store)) :
    Keeps cfg items vocabulary (m.addData cfg dataList).2
      (r.run cfg.store ((Call.addData dataList).requests cfg.store)) := by
  induction dataList generalizing m r with
  | nil => exact h
  | cons data rest ih =>
    rw [Call.terms, flatMap_cons, append_subset] at hterms
    rw [addData, eachOf]
    cases haccept : data.accepted cfg.store with
    | true =>
      have hrequests : (Call.addData (data :: rest)).requests cfg.store =
          .add data :: (Call.addData rest).requests cfg.store := by
        rw [Call.requests, takeWhile_cons, haccept]
        rfl
      rw [hrequests] at hnext hold ⊢
      rw [length_cons] at hnext
      rcases h.addAccepted (by omega) hlen hterms.1 haccept hold.1 with
        ⟨m', hm', hkeeps⟩
      rw [hm']
      have hstep := @next_step _ _ _ _ _ cfg _ r (.add data)
      exact ih hkeeps (by omega) hterms.2 hold.2
    | false =>
      have hrequests : (Call.addData (data :: rest)).requests cfg.store = [] := by
        rw [Call.requests, takeWhile_cons, haccept]
        rfl
      rw [hrequests] at hnext ⊢
      rcases h.addRefused (by omega) hlen hterms.1 haccept with
        ⟨e, m', hm', hkeeps⟩
      rw [hm']
      exact hkeeps

private theorem Keeps.deleteList (h : Keeps cfg items vocabulary m r)
    (dataList : List DeleteDataRequest)
    (hnext : r.catalog.next + dataList.length < 2 ^ 31)
    (hold : r.OldAsStored cfg.store
      (dataList.map .delete : List (Request term vec value))) :
    Keeps cfg items vocabulary (m.deleteData cfg dataList).2
      (r.run cfg.store
        (dataList.map .delete : List (Request term vec value))) := by
  induction dataList generalizing m r with
  | nil => exact h
  | cons data rest ih =>
    rw [length_cons] at hnext
    rw [deleteData, eachOf]
    rcases h.delete (by omega) hold.1 with ⟨m', hm', hkeeps⟩
    rw [hm']
    have hstep := @next_step _ _ _ _ _ cfg _ r
      (.delete data : Request term vec value)
    exact ih hkeeps (by omega) hold.2

/-- A session in which the old fields are those that were stored. -/
theorem Keeps.run (h : Keeps cfg items vocabulary m r)
    (hlen : vocabulary.length < 2 ^ 32)
    (calls : List (Call term vec value))
    (hnext : r.catalog.next + (requestsOf cfg.store calls).length < 2 ^ 31)
    (hterms : forall call, call ∈ calls -> call.terms cfg.store ⊆ vocabulary)
    (hold : r.OldAsStored cfg.store (requestsOf cfg.store calls)) :
    Keeps cfg items vocabulary (m.run cfg calls)
      (r.run cfg.store (requestsOf cfg.store calls)) := by
  induction calls generalizing m r with
  | nil => exact h
  | cons call rest ih =>
    have hrequests : requestsOf cfg.store (call :: rest) =
        call.requests cfg.store ++ requestsOf cfg.store rest :=
      flatMap_cons
    rw [hrequests] at hnext hold ⊢
    rw [length_append] at hnext
    rw [oldAsStored_append] at hold
    rw [Records.run_append]
    have hgrown := @next_run _ _ _ _ _ cfg _ r (call.requests cfg.store)
    have hone : Keeps cfg items vocabulary (m.step cfg call)
        (r.run cfg.store (call.requests cfg.store)) := by
      cases call with
      | addData dataList =>
        exact h.addList hlen dataList (by omega)
          (hterms _ mem_cons_self) hold.1
      | deleteData dataList =>
        rw [Call.requests, length_map] at hnext
        exact h.deleteList dataList (by omega) hold.1
    exact ih hone (by omega)
      (fun c hc => hterms c (mem_cons_of_mem _ hc)) hold.2

omit [Add value] [Zero value] in
theorem keeps_new (cfg : ManagerConfig term vec enc num)
    (items : Assoc Str FieldType) (vocabulary : List TermKey)
    (maxElementCount : Nat) :
    Keeps cfg items vocabulary
      (new cfg maxElementCount items :
        IndexManager enc value num) Records.empty := by
  rcases (agrees_new cfg.store maxElementCount : Agrees cfg.store
    (FlatStore.new cfg.store maxElementCount : FlatStore enc value)
      Catalog.empty [] ∧ _) with ⟨hagrees, hterms⟩
  refine ⟨⟨[], hagrees⟩, ?_, Catalog.ok_empty, ?_, ?_⟩
  · show (FlatStore.new cfg.store maxElementCount :
      FlatStore enc value).terms ⊆ vocabulary
    rw [hterms]
    exact nil_subset _
  · intro label
    exact ⟨fun _ => rfl, fun _ => rfl⟩
  · refine ⟨_, FieldBitmapGroupSet.exact_new items, ?_, fun o _ => rfl⟩
    intro label e doc hlive
    cases hlive

end Runs

end Index
end OpenViking
