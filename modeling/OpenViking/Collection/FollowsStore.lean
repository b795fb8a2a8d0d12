import OpenViking.Collection.LocalCollection

/-!
# The index follows the store

One batch of writes leaves the index right for a label exactly if every row of
the batch that a later row overwrites has no posting of its own.  Deletions
and expiry always leave the index right.
-/

namespace OpenViking
namespace Collection

open Paths Assoc Store NativeIndex List CandidateData
open OpenViking.Vector

variable {raw key term value posting : Type}

/-!
# The last row of a label
-/

def lastRow (rows : List (CandidateData term value)) (label : Label) :
    Option (CandidateData term value) :=
  rows.reverse.find? fun data => decide (data.label = label)

theorem lastRow_snoc (rows : List (CandidateData term value))
    (data : CandidateData term value) (label : Label) :
    lastRow (rows ++ [data]) label =
      if data.label = label then some data else lastRow rows label := by
  rw [lastRow, reverse_append, reverse_singleton,
    singleton_append, find?_cons]
  by_cases h : data.label = label
  · rw [if_pos h, decide_eq_true h]
  · rw [if_neg h, decide_eq_false h]
    rfl

variable {rows : List (CandidateData term value)} {label : Label}

theorem lastRow_eq_none_iff :
    lastRow rows label = none <-> label ∉ rows.map CandidateData.label := by
  rw [lastRow, find?_eq_none]
  simp [mem_map]

variable {data : CandidateData term value}

theorem lastRow_mem (h : lastRow rows label = some data) :
    data ∈ rows ∧ data.label = label := by
  constructor
  · exact mem_reverse.mp (mem_of_find?_eq_some h)
  · simpa using find?_some h

theorem lastRow_map
    {f : CandidateData term value -> CandidateData term value}
    (hf : forall data, (f data).label = data.label) (label : Label) :
    lastRow (rows.map f) label = (lastRow rows label).map f := by
  induction rows using reverseRecOn with
  | nil => rfl
  | append_singleton rows data ih =>
    rw [map_append, map_singleton, lastRow_snoc, lastRow_snoc, hf, ih]
    by_cases h : data.label = label
    · rw [if_pos h, if_pos h]
      rfl
    · rw [if_neg h, if_neg h]

theorem find_putRows (s : Store term value) (ttl : Int) (base : Nat)
    (deltas : List (DeltaRecord term value))
    (rows : List (CandidateData term value)) (label : Label) :
    (s.putRows ttl base deltas rows).cands.find label =
      (lastRow rows label).or (s.cands.find label) := by
  rw [putRows, find_putAll, lastRow, ← map_reverse,
    find?_map]
  show Option.elim (Option.map _ (rows.reverse.find? fun data =>
    decide (data.label = label))) _ _ = _
  cases rows.reverse.find? fun data => decide (data.label = label) with
  | none => rfl
  | some data => rfl

theorem withExpiry_eq_map (ttl : Int) (now : Nat)
    (rows : List (CandidateData term value)) :
    withExpiry ttl now rows = rows ∨
      exists time, withExpiry ttl now rows =
        rows.map (expiringAt time) := by
  rw [withExpiry]
  by_cases h : 0 < ttl
  · rw [if_pos h]
    exact .inr ⟨_, rfl⟩
  · rw [if_neg h]
    exact .inl rfl

theorem lastRow_withExpiry (ttl : Int) (now : Nat)
    (rows : List (CandidateData term value)) (label : Label) :
    match lastRow rows label with
    | none => lastRow (withExpiry ttl now rows) label = none
    | some data => exists time,
        lastRow (withExpiry ttl now rows) label =
          some { data with expireNsTs := time } := by
  rcases withExpiry_eq_map ttl now rows with heq | ⟨time, heq⟩
  · rw [heq]
    cases lastRow rows label with
    | none => rfl
    | some data => exact ⟨data.expireNsTs, rfl⟩
  · rw [heq, lastRow_map (f := expiringAt time) (fun _ => rfl)]
    cases lastRow rows label with
    | none => rfl
    | some data => exact ⟨time, rfl⟩

variable [DecidableEq posting]

/-!
# A batch of writes
-/

section Batch

variable {cfg : IndexConfig value posting}
  {n : NativeIndex term value posting} {s : Store term value}
  {label : Label}

/-- The index after the records of a batch. -/
private def applied (cfg : IndexConfig value posting)
    (n : NativeIndex term value posting) (s : Store term value)
    (rows : List (CandidateData term value)) :
    NativeIndex term value posting :=
  (s.upsertDeltas rows).foldl (addOne cfg) n

omit [DecidableEq posting] in
theorem map_label_upsertDeltas (s : Store term value)
    (rows : List (CandidateData term value)) :
    (s.upsertDeltas rows).map DeltaRecord.label =
      rows.map CandidateData.label := by
  rw [upsertDeltas, map_map]
  rfl

omit [DecidableEq posting] in
theorem map_label_deleteDeltas (s : Store term value) (labels : List Label) :
    (s.deleteDeltas labels).map DeltaRecord.label = labels := by
  rw [deleteDeltas, map_map]
  exact map_id labels

omit [DecidableEq posting] in
theorem map_label_expiredDeltas (rows : List (CandidateData term value)) :
    (expiredDeltas rows).map DeltaRecord.label =
      rows.map CandidateData.label := by
  rw [expiredDeltas, map_map]
  rfl

private theorem applied_snoc (rows : List (CandidateData term value))
    (data : CandidateData term value) :
    applied cfg n s (rows ++ [data]) =
      addOne cfg (applied cfg n s rows)
        (upsertDelta data (s.oldFields data.label)) := by
  rw [applied, upsertDeltas, map_append, foldl_append]
  rfl

private theorem applied_other (h : label ∉ rows.map CandidateData.label) :
    (applied cfg n s rows).SameAt n label := by
  apply foldl_other (fun _ _ => addOne_other)
  rw [map_label_upsertDeltas]
  exact h

private theorem applied_points (rows : List (CandidateData term value))
    (label : Label) :
    (applied cfg n s rows).points label =
      ((lastRow rows label).map (rowPoint cfg)).or
        (n.points label) := by
  induction rows using reverseRecOn with
  | nil => rfl
  | append_singleton rows data ih =>
    rw [applied_snoc, lastRow_snoc]
    by_cases h : data.label = label
    · rw [if_pos h, ← h]
      exact addOne_self.1
    · rw [if_neg h, ← ih]
      exact (addOne_other (Ne.symm h)).1

private theorem applied_snoc_self
    (h : data.label = label) :
    (applied cfg n s (rows ++ [data])).postings label =
      ((applied cfg n s rows).postings label \
        cfg.postings (s.oldFields label)) ∪ cfg.postings data.fields := by
  cases h
  rw [applied_snoc]
  exact addOne_self.2

/-- The postings that a row of the label brings and the next row of the label
does not take away. -/
private def Left (cfg : IndexConfig value posting) (s : Store term value)
    (rows : List (CandidateData term value)) (label : Label) (x : posting) :
    Prop :=
  exists data, data ∈ rows ∧ data.label = label ∧
    x ∈ cfg.postings data.fields ∧ x ∉ cfg.postings (s.oldFields label)

omit [DecidableEq posting] in
private theorem left_snoc_iff {x : posting} :
    Left cfg s (rows ++ [data]) label x <->
      Left cfg s rows label x ∨
        (data.label = label ∧ x ∈ cfg.postings data.fields ∧
          x ∉ cfg.postings (s.oldFields label)) := by
  constructor
  · intro h
    rcases h with ⟨d, hd, hlabel, hx⟩
    rcases mem_append.mp hd with hrows | hlast
    · exact .inl ⟨d, hrows, hlabel, hx⟩
    · cases mem_singleton.mp hlast
      exact .inr ⟨hlabel, hx⟩
  · intro h
    rcases h with ⟨d, hd, hlabel, hx⟩ | ⟨hlabel, hx⟩
    · exact ⟨d, mem_append_left _ hd, hlabel, hx⟩
    · exact ⟨data, mem_append_right _ (mem_singleton.mpr rfl),
        hlabel, hx⟩

private theorem mem_applied_postings (hfiled : n.postings label =
    cfg.postings (s.oldFields label))
    {last : CandidateData term value} (hlast : lastRow rows label = some last)
    (x : posting) :
    x ∈ (applied cfg n s rows).postings label <->
      Left cfg s rows label x ∨ x ∈ cfg.postings last.fields := by
  induction rows using reverseRecOn generalizing last with
  | nil => cases hlast
  | append_singleton rows data ih =>
    rw [lastRow_snoc] at hlast
    rw [left_snoc_iff]
    by_cases h : data.label = label
    · rw [if_pos h] at hlast
      cases hlast
      rw [applied_snoc_self h, Finset.mem_union, Finset.mem_sdiff]
      have hbefore : (x ∈ (applied cfg n s rows).postings label ∧
          x ∉ cfg.postings (s.oldFields label)) <->
          Left cfg s rows label x := by
        cases hrows : lastRow rows label with
        | none =>
          have hnot := lastRow_eq_none_iff.mp hrows
          rw [(applied_other hnot).2, hfiled]
          constructor
          · intro hx
            exact absurd hx.1 hx.2
          · intro hx
            rcases hx with ⟨d, hd, hlabel, _⟩
            rw [← hlabel] at hnot
            exact absurd (mem_map_of_mem hd) hnot
        | some before =>
          rw [ih hrows]
          constructor
          · intro hx
            rcases hx with ⟨hleft | hmem, hold⟩
            · exact hleft
            · have hb := lastRow_mem hrows
              exact ⟨before, hb.1, hb.2, hmem, hold⟩
          · intro hx
            rcases hx with ⟨d, hd, hlabel, hmem, hold⟩
            exact ⟨.inl ⟨d, hd, hlabel, hmem, hold⟩, hold⟩
      rw [hbefore]
      constructor
      · intro hx
        rcases hx with hleft | hmem
        · exact .inl (.inl hleft)
        · exact .inr hmem
      · intro hx
        rcases hx with (hleft | ⟨_, hmem, _⟩) | hmem
        · exact .inl hleft
        · exact .inr hmem
        · exact .inr hmem
    · rw [if_neg h] at hlast
      rw [applied_snoc, (addOne_other (Ne.symm h)).2, ih hlast]
      constructor
      · intro hx
        rcases hx with hleft | hmem
        · exact .inl (.inl hleft)
        · exact .inr hmem
      · intro hx
        rcases hx with (hleft | ⟨hlabel, _⟩) | hmem
        · exact .inl hleft
        · exact absurd hlabel h
        · exact .inr hmem

/-- A row that a later row of the batch overwrites brings no posting that is
neither an old one nor one of the last row. -/
def NothingLeft (cfg : IndexConfig value posting) (s : Store term value)
    (rows : List (CandidateData term value)) : Prop :=
  forall data, data ∈ rows -> forall last,
    lastRow rows data.label = some last ->
      forall x, x ∈ cfg.postings data.fields ->
        x ∈ cfg.postings (s.oldFields data.label) ∨
          x ∈ cfg.postings last.fields

private theorem find_written (s : Store term value) (ttl : Int)
    (base now : Nat) (deltas : List (DeltaRecord term value))
    (rows : List (CandidateData term value)) (label : Label) :
    match lastRow rows label with
    | none =>
      (s.putRows ttl base deltas (withExpiry ttl now rows)).cands.find
        label = s.cands.find label
    | some data => exists time,
        (s.putRows ttl base deltas (withExpiry ttl now rows)).cands.find
          label = some { data with expireNsTs := time } := by
  have hlast := lastRow_withExpiry ttl now rows label
  rw [find_putRows]
  cases hrows : lastRow rows label with
  | none =>
    rw [hrows] at hlast
    show Option.or _ _ = _
    rw [hlast]
    rfl
  | some data =>
    rw [hrows] at hlast
    rcases hlast with ⟨time, hlast⟩
    refine ⟨time, ?_⟩
    rw [hlast]
    rfl

/-- A batch of writes leaves the index right for a label exactly if nothing
is left of the label's overwritten rows. -/
private theorem followsAt_upsert_iff (h : n.FollowsAt cfg s label)
    (rows : List (CandidateData term value)) (ttl : Int)
    (deltas : List (DeltaRecord term value)) (base now clock : Nat) :
    (n.upsertData cfg clock (s.upsertDeltas rows)).FollowsAt cfg
        (s.putRows ttl base deltas (withExpiry ttl now rows)) label <->
      forall last, lastRow rows label = some last ->
        forall x, Left cfg s rows label x -> x ∈ cfg.postings last.fields := by
  have hfind := find_written s ttl base now deltas rows label
  have hpoints : (n.upsertData cfg clock (s.upsertDeltas rows)).points label =
      ((lastRow rows label).map (rowPoint cfg)).or
        (n.points label) := applied_points rows label
  rw [NativeIndex.FollowsAt, hpoints]
  cases hrows : lastRow rows label with
  | none =>
    rw [hrows] at hfind
    change find _ _ = _ at hfind
    have hsame : (applied cfg n s rows).SameAt n label :=
      applied_other (lastRow_eq_none_iff.mp hrows)
    constructor
    · nofun
    · intro _
      constructor
      · rw [hfind]
        exact h.1
      · rw [oldFields, hfind]
        exact hsame.2.trans h.2
  | some last =>
    rw [hrows] at hfind
    rcases hfind with ⟨time, hfind⟩
    rw [oldFields, hfind]
    have hmem := mem_applied_postings h.2 hrows
    constructor
    · intro hfollows last' hlast' x hx
      cases hlast'
      have hx' := (hmem x).mpr (.inl hx)
      exact (Finset.ext_iff.mp hfollows.2 x).mp hx'
    intro hleft
    constructor
    · rfl
    ext x
    constructor
    · intro hx
      rcases (hmem x).mp hx with hl | hx
      · exact hleft last rfl x hl
      · exact hx
    · intro hx
      exact (hmem x).mpr (.inr hx)

theorem follows_upsert_iff (h : n.Follows cfg s)
    (rows : List (CandidateData term value)) (ttl : Int)
    (deltas : List (DeltaRecord term value)) (base now clock : Nat) :
    (n.upsertData cfg clock (s.upsertDeltas rows)).Follows cfg
        (s.putRows ttl base deltas (withExpiry ttl now rows)) <->
      NothingLeft cfg s rows := by
  constructor
  · intro hfollows data hdata last hlast x hx
    by_cases hold : x ∈ cfg.postings (s.oldFields data.label)
    · exact .inl hold
    · have hat := (followsAt_upsert_iff (h data.label) rows ttl deltas base now
        clock).mp (hfollows data.label)
      exact .inr (hat last hlast x ⟨data, hdata, rfl, hx, hold⟩)
  · intro hnothing label
    apply (followsAt_upsert_iff (h label) rows ttl deltas base now clock).mpr
    intro last hlast x hx
    rcases hx with ⟨data, hdata, hlabel, hmem, hold⟩
    cases hlabel
    rcases hnothing data hdata last hlast x hmem with hx | hx
    · exact absurd hx hold
    · exact hx

omit [DecidableEq posting] in
theorem nothingLeft_of_nodup
    (hnodup : (rows.map CandidateData.label).Nodup) :
    NothingLeft cfg s rows := by
  intro data hdata last hlast x hx
  have hmem := lastRow_mem hlast
  have heq := inj_on_of_nodup_map hnodup hmem.1 hdata hmem.2
  rw [heq]
  exact .inr hx

theorem followsAt_upsert_of_nodup
    (hnodup : (rows.map CandidateData.label).Nodup)
    (h : n.FollowsAt cfg s label) (ttl : Int)
    (deltas : List (DeltaRecord term value)) (base now clock : Nat) :
    (n.upsertData cfg clock (s.upsertDeltas rows)).FollowsAt cfg
      (s.putRows ttl base deltas (withExpiry ttl now rows)) label := by
  apply (followsAt_upsert_iff h rows ttl deltas base now clock).mpr
  intro last hlast x hx
  rcases hx with ⟨data, hdata, hlabel, hmem, hold⟩
  cases hlabel
  rcases nothingLeft_of_nodup hnodup data hdata last hlast x hmem with hx | hx
  · exact absurd hx hold
  · exact hx

/-!
# Deletion and expiry
-/

omit [DecidableEq posting] in
theorem FollowsAt.clean (h : n.FollowsAt cfg s label) : n.Clean label := by
  intro hnone
  rw [h.1] at hnone
  rw [h.2, oldFields, Option.map_eq_none_iff.mp hnone]
  exact cfg.postings_nil

theorem followsAt_delete (h : n.FollowsAt cfg s label) {s' : Store term value}
    {deltas : List (DeltaRecord term value)} (clock : Nat)
    (hold : forall d, d ∈ deltas -> d.oldFields = s.oldFields d.label)
    (hfind : s'.cands.find label =
      if label ∈ deltas.map DeltaRecord.label then none
      else s.cands.find label) :
    (n.deleteData cfg clock deltas).FollowsAt cfg s' label := by
  by_cases hmem : label ∈ deltas.map DeltaRecord.label
  · have hfiled : forall d, d ∈ deltas -> d.label = label ->
        n.postings label = cfg.postings d.oldFields := by
      intro d hd hlabel
      rw [hold d hd, hlabel]
      exact h.2
    have hgone := foldl_deleteOne (FollowsAt.clean h) hmem hfiled
    rw [NativeIndex.FollowsAt, oldFields, hfind, if_pos hmem]
    exact ⟨hgone.1, hgone.2.trans cfg.postings_nil.symm⟩
  · have hsame : (n.deleteData cfg clock deltas).SameAt n label :=
      deleteData_other hmem
    rw [NativeIndex.FollowsAt, oldFields, hfind, if_neg hmem, hsame.1,
      hsame.2]
    exact h

end Batch

/-!
# Calls
-/

section Calls

variable {cfg : CollectionConfig raw key term value posting}
  {c : LocalCollection term value posting} {s : Store term value}

omit [DecidableEq posting] in
theorem labelled_putRows (h : s.Labelled) (ttl : Int) (base : Nat)
    (deltas : List (DeltaRecord term value))
    (rows : List (CandidateData term value)) :
    (s.putRows ttl base deltas rows).Labelled := by
  intro label data hdata
  rw [find_putRows] at hdata
  cases hrows : lastRow rows label with
  | none =>
    rw [hrows] at hdata
    exact h label data hdata
  | some last =>
    rw [hrows] at hdata
    cases hdata
    exact (lastRow_mem hrows).2

omit [DecidableEq posting] in
theorem labelled_of_delAll (h : s.Labelled) {s' : Store term value}
    {labels : List Label} (hcands : s'.cands = s.cands.delAll labels) :
    s'.Labelled := by
  intro label data hdata
  rw [hcands, find_delAll] at hdata
  by_cases hmem : label ∈ labels
  · rw [if_pos hmem] at hdata
    cases hdata
  · rw [if_neg hmem] at hdata
    exact h label data hdata

theorem writeRows_eq (c : LocalCollection term value posting)
    (rows : List (CandidateData term value)) (ttl : Int) (clock : Clock) :
    c.writeRows cfg rows ttl clock =
      match (withExpiry ttl clock.now rows).findSome?
        serializeError with
      | some e => .error (.serialize e)
      | none => .ok
          ⟨c.store.putRows ttl clock.base (c.store.upsertDeltas rows)
              (withExpiry ttl clock.now rows),
            c.index.upsertData cfg.index clock.applied
              (c.store.upsertDeltas rows)⟩ := by
  rw [LocalCollection.writeRows, addCandsData]
  simp only [if_true]
  cases (withExpiry ttl clock.now rows).findSome?
    serializeError with
  | some e => rfl
  | none => rfl

theorem follows_deleteLabels (h : c.index.Follows cfg.index c.store)
    (labels : List Label) (clock : Clock) :
    (c.deleteLabels cfg labels clock).index.Follows cfg.index
      (c.deleteLabels cfg labels clock).store := by
  have hlabels := map_label_deleteDeltas c.store labels
  intro label
  apply followsAt_delete (h label)
  · intro d hd
    rcases mem_map.mp hd with ⟨label, _, heq⟩
    rw [← heq]
    rfl
  · show (c.store.cands.delAll labels).find label = if label ∈ map
      DeltaRecord.label (c.store.deleteDeltas labels) then none else _
    rw [hlabels, find_delAll]

omit [DecidableEq posting] in
theorem mem_expiredCandsData {now : Nat} {labels : List Label} :
    data ∈ s.expiredCandsData now labels <->
      exists label, label ∈ labels ∧ s.cands.find label = some data ∧
        data.expireNsTs ≤ now := by
  rw [expiredCandsData, mem_filterMap]
  constructor
  · intro h
    rcases h with ⟨label, hlabel, hfilter⟩
    rcases Option.filter_eq_some_iff.mp hfilter with ⟨hfind, hle⟩
    exact ⟨label, hlabel, hfind, of_decide_eq_true hle⟩
  · intro h
    rcases h with ⟨label, hlabel, hfind, hle⟩
    exact ⟨label, hlabel,
      Option.filter_eq_some_iff.mpr ⟨hfind, decide_eq_true hle⟩⟩

theorem follows_expire (h : c.index.Follows cfg.index c.store)
    (hs : c.store.Labelled) (clock : Clock) :
    (c.expireTimeoutData cfg clock).index.Follows cfg.index
      (c.expireTimeoutData cfg clock).store := by
  intro label
  apply followsAt_delete (h label)
  · intro d hd
    rcases mem_map.mp hd with ⟨data, hdata, heq⟩
    rcases mem_expiredCandsData.mp hdata with ⟨label, _, hfind, _⟩
    rw [← heq]
    show data.fields = c.store.oldFields data.label
    rw [hs label data hfind, oldFields, hfind]
  · show (c.store.cands.delAll _).find label = if label ∈ map
      DeltaRecord.label (expiredDeltas _) then none else _
    rw [map_label_expiredDeltas, find_delAll]

/-- A call writes nothing, or leaves nothing of the rows it overwrites. -/
def Spares (cfg : CollectionConfig raw key term value posting)
    (c : LocalCollection term value posting) (call : Call raw key) : Prop :=
  forall rows ttl, c.written cfg call = .ok (rows, ttl) ->
    (withExpiry ttl call.clock.now rows).findSome?
      CandidateData.serializeError = none ->
    NothingLeft cfg.index c.store rows

/-- What `_write_data_list` leaves behind, whether or not it raises. -/
private def afterWrite (cfg : CollectionConfig raw key term value posting)
    (c : LocalCollection term value posting) (clock : Clock)
    (written : Except (CallError key)
      (List (CandidateData term value) × Int)) :
    LocalCollection term value posting :=
  match written.bind fun w => c.writeRows cfg w.1 w.2 clock with
  | .error _ => c
  | .ok c => c

private theorem afterWrite_labelled (hs : c.store.Labelled) (clock : Clock)
    (written : Except (CallError key)
      (List (CandidateData term value) × Int)) :
    (afterWrite cfg c clock written).store.Labelled := by
  cases written with
  | error e => exact hs
  | ok w =>
    show Store.Labelled (LocalCollection.store
      (match c.writeRows cfg w.1 w.2 clock with
      | .error _ => c
      | .ok c => c))
    rw [writeRows_eq]
    cases (withExpiry w.2 clock.now w.1).findSome?
      serializeError with
    | some e => exact hs
    | none =>
      show Store.Labelled (putRows _ _ _ _ _)
      exact labelled_putRows hs w.2 clock.base _ _

private theorem afterWrite_follows_iff
    (h : c.index.Follows cfg.index c.store) (clock : Clock)
    (written : Except (CallError key)
      (List (CandidateData term value) × Int)) :
    (afterWrite cfg c clock written).index.Follows cfg.index
        (afterWrite cfg c clock written).store <->
      forall rows ttl, written = .ok (rows, ttl) ->
        (withExpiry ttl clock.now rows).findSome?
          serializeError = none ->
        NothingLeft cfg.index c.store rows := by
  cases written with
  | error e =>
    constructor
    · nofun
    · intro _
      exact h
  | ok w =>
    rcases w with ⟨rows, ttl⟩
    have hwrite : c.writeRows cfg rows ttl clock = _ :=
      writeRows_eq c rows ttl clock
    cases hser : (withExpiry ttl clock.now rows).findSome?
        serializeError with
    | some e =>
      rw [hser] at hwrite
      have hafter : afterWrite cfg c clock (.ok (rows, ttl)) = c := by
        show (match c.writeRows cfg rows ttl clock with
          | .error _ => c
          | .ok c => c) = c
        rw [hwrite]
      rw [hafter]
      constructor
      · intro _ rows' ttl' heq hnone
        cases heq
        rw [hser] at hnone
        cases hnone
      · intro _
        exact h
    | none =>
      rw [hser] at hwrite
      have hiff := follows_upsert_iff h rows ttl
        (c.store.upsertDeltas rows) clock.base clock.now clock.applied
      have hafter : afterWrite cfg c clock (.ok (rows, ttl)) =
          ⟨c.store.putRows ttl clock.base (c.store.upsertDeltas rows)
              (withExpiry ttl clock.now rows),
            c.index.upsertData cfg.index clock.applied
              (c.store.upsertDeltas rows)⟩ := by
        show (match c.writeRows cfg rows ttl clock with
          | .error _ => c
          | .ok c => c) = _
        rw [hwrite]
      rw [hafter]
      constructor
      · intro hfollows rows' ttl' heq _
        cases heq
        exact hiff.mp hfollows
      · intro hnothing
        exact hiff.mpr (hnothing rows ttl rfl hser)

theorem step_labelled (hs : c.store.Labelled) (call : Call raw key) :
    (c.step cfg call).store.Labelled := by
  cases call with
  | upsertData rawDataList ttl clock => exact afterWrite_labelled hs clock _
  | updateData rawDataList clock => exact afterWrite_labelled hs clock _
  | deleteData primaryKeys clock => exact labelled_of_delAll hs rfl
  | expireTimeoutData clock => exact labelled_of_delAll hs rfl

theorem step_follows_iff (h : c.index.Follows cfg.index c.store)
    (hs : c.store.Labelled) (call : Call raw key) :
    (c.step cfg call).index.Follows cfg.index (c.step cfg call).store <->
      Spares cfg c call := by
  have hnone : forall call : Call raw key,
      c.written cfg call = .ok ([], 0) -> Spares cfg c call := by
    intro call hwritten rows ttl heq _
    rw [hwritten] at heq
    cases heq
    intro data hdata
    cases hdata
  cases call with
  | upsertData rawDataList ttl clock =>
    exact afterWrite_follows_iff h clock _
  | updateData rawDataList clock => exact afterWrite_follows_iff h clock _
  | deleteData primaryKeys clock =>
    exact iff_of_true (follows_deleteLabels h _ clock) (hnone _ rfl)
  | expireTimeoutData clock =>
    exact iff_of_true (follows_expire h hs clock) (hnone _ rfl)

theorem run_labelled (hs : c.store.Labelled) (calls : List (Call raw key)) :
    (c.run cfg calls).store.Labelled := by
  induction calls generalizing c with
  | nil => exact hs
  | cons call rest ih => exact ih (step_labelled hs call)

end Calls

/-!
# A new index
-/

variable {s : Store term value}

theorem map_label_getAllCandsData (hs : s.Labelled) :
    s.getAllCandsData.map CandidateData.label =
      s.cands.bindings.map Prod.fst := by
  rw [getAllCandsData, map_map]
  apply map_congr_left
  intro b hb
  exact hs b.1 b.2 (mem_bindings.mp hb)

theorem mem_getAllCandsData (hs : s.Labelled) :
    data ∈ s.getAllCandsData <-> s.cands.find data.label = some data := by
  rw [getAllCandsData, mem_map]
  constructor
  · intro h
    rcases h with ⟨b, hb, heq⟩
    have hfind := mem_bindings.mp hb
    rw [← heq, hs b.1 b.2 hfind]
    exact hfind
  · intro h
    exact ⟨(data.label, data), mem_bindings.mpr h, rfl⟩

theorem lastRow_getAllCandsData (hs : s.Labelled)
    (label : Label) :
    lastRow s.getAllCandsData label = s.cands.find label := by
  cases hrow : lastRow s.getAllCandsData label with
  | some data =>
    have hmem := lastRow_mem hrow
    rw [← hmem.2]
    exact ((mem_getAllCandsData hs).mp hmem.1).symm
  | none =>
    cases hfind : s.cands.find label with
    | none => rfl
    | some data =>
      have hlabel := hs label data hfind
      have hmem : data ∈ s.getAllCandsData := by
        rw [mem_getAllCandsData hs, hlabel]
        exact hfind
      have hnot := lastRow_eq_none_iff.mp hrow
      rw [← hlabel] at hnot
      exact absurd (mem_map_of_mem hmem) hnot

theorem build_follows (cfg : IndexConfig value posting)
    (hs : s.Labelled) (timestamp clock : Nat) :
    (build cfg timestamp clock s.getAllCandsData).Follows cfg
      s := by
  have hempty : (empty timestamp :
      NativeIndex term value posting).Follows cfg empty :=
    fun _ => ⟨rfl, cfg.postings_nil.symm⟩
  have hnodup : (s.getAllCandsData.map CandidateData.label).Nodup := by
    rw [map_label_getAllCandsData hs]
    exact nodup_bindings_keys s.cands
  have hput := (follows_upsert_iff hempty s.getAllCandsData 0 [] 0 0
    clock).mpr (nothingLeft_of_nodup hnodup)
  have hfind : forall label,
      ((empty : Store term value).putRows 0 0 []
        (withExpiry 0 0 s.getAllCandsData)).cands.find label =
        s.cands.find label := by
    intro label
    rw [find_putRows, withExpiry, if_neg (by decide),
      lastRow_getAllCandsData hs]
    exact Option.or_none
  intro label
  rcases hput label with ⟨hpoint, hpostings⟩
  rw [hfind] at hpoint
  rw [oldFields, hfind] at hpostings
  exact ⟨hpoint, hpostings⟩

/-!
# Runs
-/

/-- Rows of a number and a tag; the tag is what is filed. -/
def tagConfig : CollectionConfig (Nat × Str) Nat Unit Nat Str where
  index :=
    { normalizeVectorFlag := false
      normalizeVector := id
      postings := fun fields => if fields = [] then ∅ else {fields}
      postings_nil := rfl }
  labelOf := UInt64.ofNat
  rawKey := fun raw => some raw.1
  validateAndProcess := fun raw => some ⟨none, raw.1, [raw.1], [], raw.2⟩
  merged := fun _ raw => raw

theorem index_follows_store_iff
    (cfg : CollectionConfig raw key term value posting)
    {s : Store term value} (hs : s.Labelled) (timestamp clock : Nat)
    (calls : List (Call raw key)) :
    (forall past, past <+: calls ->
      ((LocalCollection.createIndex cfg s timestamp clock).run cfg
        past).index.Follows cfg.index
          ((LocalCollection.createIndex cfg s timestamp clock).run cfg
            past).store) <->
      forall past call, past ++ [call] <+: calls ->
        Spares cfg ((LocalCollection.createIndex cfg s timestamp clock).run
          cfg past) call := by
  have hsnoc : forall past call,
      (LocalCollection.createIndex cfg s timestamp clock).run cfg
          (past ++ [call]) =
        ((LocalCollection.createIndex cfg s timestamp clock).run cfg
          past).step cfg call := by
    intro past call
    exact List.foldl_append ..
  constructor
  · intro h past call hpre
    have hpast := h past ((List.prefix_append past [call]).trans hpre)
    have hnext := h _ hpre
    rw [hsnoc] at hnext
    exact (step_follows_iff hpast (run_labelled hs past) call).mp hnext
  · intro h past
    induction past using List.reverseRecOn with
    | nil => exact fun _ => build_follows cfg.index hs timestamp clock
    | append_singleton past call ih =>
      intro hpre
      have hpast := ih ((List.prefix_append past [call]).trans hpre)
      rw [hsnoc]
      exact (step_follows_iff hpast (run_labelled hs past) call).mpr
        (h past call hpre)

def tagCollection : LocalCollection Unit Nat Str :=
  LocalCollection.createIndex tagConfig empty 0 0

theorem index_follows_store_distinct :
    Store.Labelled (empty : Store Unit Nat) ∧
      (tagCollection.run tagConfig
        [.upsertData [(1, ['x']), (2, ['y'])] 0 ⟨10, 11, 12⟩]).index.Follows
        tagConfig.index
        (tagCollection.run tagConfig
          [.upsertData [(1, ['x']), (2, ['y'])] 0 ⟨10, 11, 12⟩]).store := by
  have hs : Store.Labelled (empty : Store Unit Nat) := nofun
  refine ⟨hs, ?_⟩
  apply (index_follows_store_iff tagConfig hs 0 0
    [.upsertData [(1, ['x']), (2, ['y'])] 0 ⟨10, 11, 12⟩]).mpr
  · intro past call hpre
    have hlen := hpre.length_le
    rw [List.length_append] at hlen
    have hpast : past = [] := by
      apply List.length_eq_zero_iff.mp
      simp only [List.length_cons, List.length_nil] at hlen
      omega
    rw [hpast, List.nil_append] at hpre
    have hcall := List.head_eq_of_cons_eq (List.IsPrefix.eq_of_length hpre rfl)
    rw [hcall]
    intro rows ttl hwritten _
    cases hwritten
    apply nothingLeft_of_nodup
    decide
  · exact List.prefix_rfl

/-- A batch that repeats a key leaves the tag of the first row filed. -/
theorem repeated_key_leaves_posting :
    ¬(tagCollection.run tagConfig
        [.upsertData [(1, ['x']), (1, ['y'])] 0 ⟨10, 11, 12⟩]).index.Follows
      tagConfig.index
      (tagCollection.run tagConfig
        [.upsertData [(1, ['x']), (1, ['y'])] 0 ⟨10, 11, 12⟩]).store := by
  intro h
  have hpostings := (h 1).2
  revert hpostings
  decide +kernel

end Collection
end OpenViking
