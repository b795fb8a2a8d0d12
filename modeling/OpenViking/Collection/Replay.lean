import OpenViking.Collection.PersistCollection

/-!
# Replay

What a replay makes of one label is what the records of that label make of it
one by one.  The records from a timestamp on come in the order of their keys,
so a batch under later keys is replayed after all that was there.
-/

namespace OpenViking
namespace Collection

open Paths Store NativeIndex List
open OpenViking.Vector

variable {term value posting : Type}

/-!
# The records from a timestamp on
-/

section Suffix

variable {table : Assoc Str (DeltaRecord term value)} {v base : Nat}
  {label : Label} {deltas : List (DeltaRecord term value)}

def entriesAt (table : Assoc Str (DeltaRecord term value)) (v : Nat)
    (label : Label) : List (Str × DeltaRecord term value) :=
  (seekToEnd table (decimal v)).filter fun b => b.2.label = label

def suffixAt (table : Assoc Str (DeltaRecord term value)) (v : Nat)
    (label : Label) : List (DeltaRecord term value) :=
  (entriesAt table v label).map Prod.snd

theorem mem_entriesAt {b : Str × DeltaRecord term value} :
    b ∈ entriesAt table v label <->
      (table.find b.1 = some b.2 ∧ decimal v ≤ b.1) ∧ b.2.label = label := by
  rw [entriesAt, mem_filter, mem_seekToEnd, decide_eq_true_eq]

/-- In the order of the keys. -/
def Ascending {α : Type} (bs : List (Str × α)) : Prop :=
  bs.Pairwise fun a b => a.1 < b.1

theorem ascending_sorted {α : Type} (t : Assoc Str α) :
    Ascending (sorted t) := by
  have hle : (sorted t).Pairwise fun a b => a.1 ≤ b.1 :=
    pairwise_insertionSort _ _
  have hperm : (sorted t).Perm t.bindings := perm_insertionSort _ _
  have hnodup : ((sorted t).map Prod.fst).Nodup :=
    (hperm.map Prod.fst).nodup_iff.mpr t.nodup_bindings_keys
  have hne : (sorted t).Pairwise fun a b => a.1 ≠ b.1 :=
    pairwise_map.mp hnodup
  exact hle.imp₂ (fun a b h h' => Std.lt_of_le_of_ne h h') hne

theorem ascending_entriesAt : Ascending (entriesAt table v label) :=
  ((ascending_sorted table).filter _).filter _

theorem Ascending.nodup {α : Type} {bs : List (Str × α)} (h : Ascending bs) :
    bs.Nodup := by
  apply List.Pairwise.imp _ h
  intro a b hlt heq
  rw [heq] at hlt
  exact Std.lt_irrefl hlt

theorem Ascending.ext {α : Type} {as bs : List (Str × α)}
    (ha : Ascending as) (hb : Ascending bs)
    (h : forall b, b ∈ as <-> b ∈ bs) : as = bs := by
  have hperm : as.Perm bs := (perm_ext_iff_of_nodup ha.nodup hb.nodup).mpr h
  apply hperm.eq_of_pairwise _ ha hb
  intro a b _ _ hab hba
  exact absurd (Std.lt_trans hab hba) Std.lt_irrefl

theorem ascending_stamped
    (hnanos : forall k, base ≤ k -> k < base + deltas.length -> Nanos k) :
    Ascending (stamped base deltas) := by
  rw [Ascending, stamped, pairwise_iff_getElem]
  intro i j hi hj hij
  rw [length_mapIdx] at hi hj
  rw [getElem_mapIdx, getElem_mapIdx]
  apply (Nanos.decimal_lt_iff (hnanos _ _ _) (hnanos _ _ _)).mpr
  · omega
  · omega
  · omega
  · omega
  · omega

/-- Every key is a reading of the clock. -/
def Keyed (table : Assoc Str (DeltaRecord term value)) : Prop :=
  forall key d, table.find key = some d -> exists k, key = decimal k ∧ Nanos k

/-- No key is one of a batch that starts at `base`. -/
def Free (table : Assoc Str (DeltaRecord term value)) (base n : Nat) : Prop :=
  forall k d, table.find (decimal k) = some d -> k < base ∨ base + n ≤ k

variable {d : DeltaRecord term value}

theorem Free.notMem_stamped (h : Free table base deltas.length) {key : Str}
    (hfind : table.find key = some d) :
    key ∉ (stamped base deltas).map Prod.fst := by
  intro hmem
  rcases List.mem_map.mp hmem with ⟨b, hb, heq⟩
  rcases mem_stamped.mp hb with ⟨i, hget, hkey⟩
  rw [← heq, hkey] at hfind
  have hlt := (List.getElem?_eq_some_iff.mp hget).1
  rcases h _ d hfind with hbelow | habove
  · omega
  · omega

theorem Free.find_putAll (h : Free table base deltas.length) {key : Str} :
    (table.putAll (stamped base deltas)).find key = some d <->
      table.find key = some d ∨ (key, d) ∈ stamped base deltas := by
  by_cases hmem : key ∈ (stamped base deltas).map Prod.fst
  · rcases mem_map.mp hmem with ⟨b, hb, heq⟩
    have hput := Assoc.find_putAll_of_mem table
      (nodup_stamped_keys base deltas) hb
    rw [heq] at hput
    rw [hput]
    constructor
    · intro hd
      cases hd
      right
      rw [← heq]
      exact hb
    · intro hor
      rcases hor with hold | hnew
      · exact absurd hmem (h.notMem_stamped hold)
      · have hput' := Assoc.find_putAll_of_mem table
          (nodup_stamped_keys base deltas) hnew
        rw [← hput, ← hput']
  · rw [Assoc.find_putAll_of_notMem table hmem]
    constructor
    · exact .inl
    · intro hor
      rcases hor with hold | hnew
      · exact hold
      · exact absurd (mem_map_of_mem hnew) hmem

theorem filter_stamped (base : Nat) (deltas : List (DeltaRecord term value))
    (test : DeltaRecord term value -> Bool) :
    ((stamped base deltas).filter fun b => test b.2).map Prod.snd =
      deltas.filter test := by
  have hmap : (stamped base deltas).map Prod.snd = deltas := by
    apply ext_getElem?
    intro i
    rw [stamped, getElem?_map, getElem?_mapIdx]
    cases deltas[i]? with
    | none => rfl
    | some d => rfl
  calc ((stamped base deltas).filter fun b => test b.2).map Prod.snd
      = ((stamped base deltas).map Prod.snd).filter test := by
        rw [filter_map]
        rfl
    _ = deltas.filter test := by rw [hmap]

theorem suffixAt_putAll (hkeyed : Keyed table)
    (hnanos : forall k, base ≤ k -> k < base + deltas.length -> Nanos k)
    (hfree : Free table base deltas.length)
    (hbelow : label ∈ deltas.map DeltaRecord.label ->
      forall k d, table.find (decimal k) = some d -> d.label = label ->
        k < base)
    (hv : label ∈ deltas.map DeltaRecord.label -> v ≤ base ∧ Nanos v) :
    suffixAt (table.putAll (stamped base deltas)) v label =
      suffixAt table v label ++ deltas.filter fun d => d.label = label := by
  have hentries : entriesAt (table.putAll (stamped base deltas)) v label =
        entriesAt table v label ++
          (stamped base deltas).filter fun b => b.2.label = label := by
    apply ascending_entriesAt.ext
    · rw [Ascending, List.pairwise_append]
      refine ⟨ascending_entriesAt, (ascending_stamped hnanos).filter _, ?_⟩
      intro a ha b hb
      rcases mem_entriesAt.mp ha with ⟨⟨hfind, _⟩, halabel⟩
      rcases List.mem_filter.mp hb with ⟨hb, hblabel⟩
      rcases mem_stamped.mp hb with ⟨i, hget, hkey⟩
      have hlt := (List.getElem?_eq_some_iff.mp hget).1
      rcases hkeyed a.1 a.2 hfind with ⟨k, hk, hnk⟩
      have hmem : label ∈ deltas.map DeltaRecord.label := by
        rw [← of_decide_eq_true hblabel]
        exact List.mem_map_of_mem (List.mem_of_getElem? hget)
      rw [hk] at hfind
      have hkb := hbelow hmem k a.2 hfind halabel
      rw [hk, hkey]
      exact (Nanos.decimal_lt_iff hnk (hnanos _ (by omega) (by omega))).mpr
        (by omega)
    · intro b
      rw [mem_entriesAt, List.mem_append, mem_entriesAt, List.mem_filter,
        hfree.find_putAll, decide_eq_true_eq]
      constructor
      · intro h
        rcases h with ⟨⟨hold | hnew, hle⟩, hlabel⟩
        · exact .inl ⟨⟨hold, hle⟩, hlabel⟩
        · exact .inr ⟨hnew, hlabel⟩
      intro h
      rcases h with ⟨⟨hold, hle⟩, hlabel⟩ | ⟨hnew, hlabel⟩
      · exact ⟨⟨Or.inl hold, hle⟩, hlabel⟩
      refine ⟨⟨Or.inr hnew, ?_⟩, hlabel⟩
      rcases mem_stamped.mp hnew with ⟨i, hget, hkey⟩
      have hlt := (List.getElem?_eq_some_iff.mp hget).1
      have hmem : label ∈ deltas.map DeltaRecord.label := by
        rw [← hlabel]
        exact List.mem_map_of_mem (List.mem_of_getElem? hget)
      rcases hv hmem with ⟨hle, hnv⟩
      rw [hkey]
      have hle' : v ≤ base + i := Nat.le_add_right_of_le hle
      rcases Nat.lt_or_eq_of_le hle' with hlt' | heq
      · have hnb : Nanos (base + i) := hnanos _ (by omega) (by omega)
        exact Std.le_of_lt ((Nanos.decimal_lt_iff hnv hnb).mpr hlt')
      · rw [heq]
  rw [suffixAt, hentries, List.map_append]
  exact congrArg (suffixAt table v label ++ ·)
    (filter_stamped base deltas fun d => d.label = label)

end Suffix

/-!
# One record after the other
-/

variable [DecidableEq posting] {cfg : IndexConfig value posting}
  {n m : NativeIndex term value posting} {label : Label}
  {ds : List (DeltaRecord term value)}

def replayOne (cfg : IndexConfig value posting)
    (n : NativeIndex term value posting) (d : DeltaRecord term value) :
    NativeIndex term value posting :=
  match d.type with
  | .upsert => addOne cfg n d
  | .delete => deleteOne cfg n d

def replayAll (cfg : IndexConfig value posting)
    (n : NativeIndex term value posting) (ds : List (DeltaRecord term value)) :
    NativeIndex term value posting :=
  ds.foldl (replayOne cfg) n

theorem replayOne_sameAt (h : n.SameAt m label) (d : DeltaRecord term value) :
    (replayOne cfg n d).SameAt (replayOne cfg m d) label := by
  rw [replayOne, replayOne]
  cases d.type with
  | upsert => exact addOne_sameAt h d
  | delete => exact deleteOne_sameAt h d

theorem replayOne_other (h : label ≠ d.label) :
    (replayOne cfg n d).SameAt n label := by
  rw [replayOne]
  cases d.type with
  | upsert => exact addOne_other h
  | delete => exact deleteOne_other h

theorem replayAll_sameAt (h : n.SameAt m label) :
    (replayAll cfg n ds).SameAt (replayAll cfg m ds) label :=
  foldl_sameAt (fun _ _ d hsame => replayOne_sameAt hsame d) h

theorem replayAll_append (ds rest : List (DeltaRecord term value)) :
    replayAll cfg n (ds ++ rest) = replayAll cfg (replayAll cfg n ds) rest :=
  foldl_append

theorem replayAll_filter (n : NativeIndex term value posting)
    (ds : List (DeltaRecord term value)) (label : Label) :
    (replayAll cfg n ds).SameAt
      (replayAll cfg n (ds.filter fun d => d.label = label)) label := by
  induction ds generalizing n with
  | nil => exact NativeIndex.SameAt.refl n label
  | cons d ds ih =>
    by_cases heq : d.label = label
    · rw [filter_cons, if_pos (decide_eq_true heq)]
      exact ih (replayOne cfg n d)
    · rw [filter_cons, if_neg (fun h => heq (of_decide_eq_true h))]
      exact (ih (replayOne cfg n d)).trans
        (replayAll_sameAt (replayOne_other (Ne.symm heq)))

/-- A batch of records of one kind. -/
def AllOf (type : DeltaType) (ds : List (DeltaRecord term value)) : Prop :=
  forall d, d ∈ ds -> d.type = type

theorem replayAll_upserts (h : AllOf .upsert ds) :
    replayAll cfg n ds = ds.foldl (addOne cfg) n := by
  apply foldl_ext
  intro n d hd
  rw [replayOne, h d hd]

theorem replayAll_deletes (h : AllOf .delete ds) :
    replayAll cfg n ds = ds.foldl (deleteOne cfg) n := by
  apply foldl_ext
  intro n d hd
  rw [replayOne, h d hd]

/-- Deleting a label that the index does not have. -/
def Ineffective (n : NativeIndex term value posting)
    (d : DeltaRecord term value) : Prop :=
  d.type = .delete ∧ n.points d.label = none

theorem replayAll_ineffective (h : forall d, d ∈ ds -> Ineffective n d) :
    replayAll cfg n ds = n := by
  induction ds with
  | nil => rfl
  | cons d ds ih =>
    rcases h d mem_cons_self with ⟨htype, hpoint⟩
    have hone : replayOne cfg n d = n := by
      rw [replayOne, htype]
      exact deleteOne_absent hpoint
    rw [replayAll, foldl_cons, hone]
    exact ih fun d hd => h d (mem_cons_of_mem _ hd)

/-!
# The loop over the records
-/

variable {gap : Nat -> Nat} {r : Replayed term value posting}
  {us dels : List (DeltaRecord term value)}

theorem replayUpserts_sameAt (h : AllOf .upsert us) :
    (replayUpserts cfg gap r us).1.SameAt (replayAll cfg r.1 us) label := by
  rw [replayUpserts, replayAll_upserts h]
  cases us with
  | nil => exact NativeIndex.SameAt.refl r.1 label
  | cons d us => exact ⟨rfl, rfl⟩

theorem replayDeletes_sameAt (h : AllOf .delete dels) :
    (replayDeletes cfg gap r dels).1.SameAt (replayAll cfg r.1 dels)
      label := by
  rw [replayDeletes, replayAll_deletes h]
  cases dels with
  | nil => exact NativeIndex.SameAt.refl r.1 label
  | cons d dels => exact ⟨rfl, rfl⟩

omit [DecidableEq posting] in
theorem AllOf.concat {type : DeltaType}
    (h : AllOf type ds) (hd : d.type = type) : AllOf type (ds ++ [d]) := by
  intro e he
  rcases mem_append.mp he with hold | hlast
  · exact h e hold
  · rw [mem_singleton.mp hlast]
    exact hd

omit [DecidableEq posting] in
theorem AllOf.nil {type : DeltaType} :
    AllOf type ([] : List (DeltaRecord term value)) :=
  fun _ hd => absurd hd not_mem_nil

/-- The loop replays the records one after the other, whatever it has
collected before. -/
theorem replayRecords_sameAt (hus : AllOf .upsert us)
    (hdels : AllOf .delete dels) (hone : us = [] ∨ dels = []) :
    (replayRecords cfg gap r us dels ds).1.SameAt
      (replayAll cfg r.1 (us ++ dels ++ ds)) label := by
  induction ds generalizing r us dels with
  | nil =>
    rw [append_nil, replayAll_append]
    exact (replayDeletes_sameAt hdels).trans
      (replayAll_sameAt (replayUpserts_sameAt hus))
  | cons d ds ih =>
    have hlist : us ++ dels ++ d :: ds = (us ++ dels) ++ [d] ++ ds := by
      rw [append_assoc, append_assoc, append_assoc]
      rfl
    rw [hlist]
    cases htype : d.type with
    | upsert =>
      rw [replayRecords, htype]
      apply (ih (hus.concat htype) AllOf.nil (Or.inr rfl)).trans
      rw [append_nil]
      rcases hone with hnil | hnil
      · rw [hnil, nil_append, nil_append, append_assoc,
          replayAll_append dels]
        exact replayAll_sameAt (replayDeletes_sameAt hdels)
      · rw [hnil, append_nil]
        exact NativeIndex.SameAt.refl _ label
    | delete =>
      rw [replayRecords, htype]
      apply (ih AllOf.nil (hdels.concat htype) (Or.inl rfl)).trans
      rw [nil_append]
      rcases hone with hnil | hnil
      · rw [hnil, nil_append]
        exact NativeIndex.SameAt.refl _ label
      · rw [hnil, append_nil, nil_append, append_assoc,
          replayAll_append us]
        exact replayAll_sameAt (replayUpserts_sameAt hus)

/-- What a replay does to the timestamp: it stays, with the whole index, or it
becomes a later reading. -/
inductive Advances (r r' : Replayed term value posting)
    (ds : List (DeltaRecord term value)) : Prop where
  | still : r'.1 = r.1 -> r.2 ≤ r'.2 ->
      (forall d, d ∈ ds -> Ineffective r.1 d) -> Advances r r' ds
  | moved : r.2 < r'.1.updateTimestamp -> r'.1.updateTimestamp ≤ r'.2 ->
      Advances r r' ds

variable {r' : Replayed term value posting}

omit [DecidableEq posting] in
theorem Advances.le (h : Advances r r' ds) : r.2 ≤ r'.2 := by
  cases h with
  | still _ hle _ => exact hle
  | moved hlt hle => exact (Nat.le_of_lt hlt).trans hle

variable {ds' : List (DeltaRecord term value)}

omit [DecidableEq posting] in
theorem Advances.trans {r'' : Replayed term value posting} (h : Advances r r' ds)
    (h' : Advances r' r'' ds') : Advances r r'' (ds ++ ds') := by
  have hle := h.le
  cases h' with
  | moved hlt hle' => exact Advances.moved (hle.trans_lt hlt) hle'
  | still heq' hle' hine' =>
    cases h with
    | moved hlt hle =>
      apply Advances.moved
      · rw [heq']
        exact hlt
      · rw [heq']
        exact hle.trans hle'
    | still heq hle hine =>
      refine Advances.still (heq'.trans heq) (hle.trans hle') ?_
      intro d hd
      rcases mem_append.mp hd with hold | hnew
      · exact hine d hold
      · rw [← heq]
        exact hine' d hnew

omit [DecidableEq posting] in
theorem lt_nextReading (gap : Nat -> Nat) (last : Nat) :
    last < nextReading gap last := by
  rw [nextReading]
  omega

theorem replayUpserts_advances :
    Advances r (replayUpserts cfg gap r us) us := by
  rw [replayUpserts]
  cases us with
  | nil =>
    exact .still rfl (Nat.le_refl _)
      fun d hd => absurd hd not_mem_nil
  | cons d us =>
    exact .moved (lt_nextReading gap r.2) (Nat.le_refl _)

theorem deleteData_absent {clock : Nat} (h : AllOf .delete ds)
    (hnone : forall d, d ∈ ds -> n.points d.label = none) :
    n.deleteData cfg clock ds = n := by
  have hany : (ds.any fun d => (n.points d.label).isSome) = false := by
    rw [any_eq_false]
    intro d hd
    rw [hnone d hd]
    exact Bool.false_ne_true
  have hfold : ds.foldl (NativeIndex.deleteOne cfg) n = n := by
    rw [← replayAll_deletes h]
    exact replayAll_ineffective fun d hd => ⟨h d hd, hnone d hd⟩
  rw [NativeIndex.deleteData, hany, hfold]
  rfl

theorem deleteData_timestamp (cfg : IndexConfig value posting)
    (n : NativeIndex term value posting) (clock : Nat)
    (ds : List (DeltaRecord term value)) :
    (n.deleteData cfg clock ds).updateTimestamp = clock ∨
      forall d, d ∈ ds -> n.points d.label = none := by
  rw [NativeIndex.deleteData]
  cases hany : ds.any fun d => (n.points d.label).isSome with
  | true => exact .inl rfl
  | false =>
    right
    intro d hd
    have hd := any_eq_false.mp hany d hd
    exact Option.not_isSome_iff_eq_none.mp hd

theorem replayDeletes_advances (h : AllOf .delete dels) :
    Advances r (replayDeletes cfg gap r dels) dels := by
  rw [replayDeletes]
  cases hempty : dels.isEmpty with
  | true =>
    rw [isEmpty_iff.mp hempty]
    exact Advances.still rfl (Nat.le_refl _)
      fun d hd => absurd hd not_mem_nil
  | false =>
    have hlt := lt_nextReading gap r.2
    rw [if_neg Bool.false_ne_true]
    rcases deleteData_timestamp cfg r.1 (nextReading gap r.2) dels with
      htime | hnone
    · apply Advances.moved
      · rw [htime]
        exact hlt
      · rw [htime]
    · refine Advances.still (deleteData_absent h hnone) (Nat.le_of_lt hlt) ?_
      exact fun d hd => ⟨h d hd, hnone d hd⟩

omit [DecidableEq posting] in
theorem Advances.congr (h : Advances r r' ds)
    (hsub : ds' ⊆ ds) : Advances r r' ds' := by
  cases h with
  | still heq hle hine =>
    exact .still heq hle fun d hd => hine d (hsub hd)
  | moved hlt hle => exact .moved hlt hle

theorem replayRecords_advances (hdels : AllOf .delete dels) :
    Advances r (replayRecords cfg gap r us dels ds) (us ++ dels ++ ds) := by
  induction ds generalizing r us dels with
  | nil =>
    rw [append_nil]
    exact replayUpserts_advances.trans (replayDeletes_advances hdels)
  | cons d ds ih =>
    cases htype : d.type with
    | upsert =>
      rw [replayRecords, htype]
      apply ((replayDeletes_advances hdels).trans (ih AllOf.nil)).congr
      intro e he
      simp only [mem_append, mem_cons, not_mem_nil] at he ⊢
      tauto
    | delete =>
      rw [replayRecords, htype]
      apply (replayUpserts_advances.trans (ih (hdels.concat htype))).congr
      intro e he
      simp only [mem_append, mem_cons, not_mem_nil] at he ⊢
      tauto

end Collection
end OpenViking
