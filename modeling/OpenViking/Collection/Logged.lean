import OpenViking.Collection.Replay

/-!
# The log of a session

Every change of the index is one of the delta records in the store.  A record
is under a timestamp before the index's own, or it changes nothing, or the
writer that committed it has not handed it over yet.
-/

namespace OpenViking
namespace Collection

open Paths Interleaving List
open OpenViking.Vector

variable {term value posting : Type}

/-!
# One prepared mutation
-/

/-- The records are of the kind that the mutation is. -/
def Prepared.Typed : Prepared term value -> Prop
  | .write _ _ deltas => AllOf .upsert deltas
  | .delete _ deltas => AllOf .delete deltas
  | .expire _ _ => True

variable {p : Prepared term value}

theorem Prepared.Fresh.typed {s : Store term value}
    (h : p.Fresh s) : p.Typed := by
  cases p with
  | write rows ttl deltas =>
    intro d hd
    rw [h.1] at hd
    rcases mem_map.mp hd with ⟨data, _, heq⟩
    rw [← heq]
    rfl
  | delete labels deltas =>
    intro d hd
    rw [Prepared.Fresh] at h
    rw [h] at hd
    rcases mem_map.mp hd with ⟨label, _, heq⟩
    rw [← heq]
    rfl
  | expire swept rows => trivial

theorem allOf_expiredDeltas (rows : List (CandidateData term value)) :
    AllOf .delete (Store.expiredDeltas rows) := by
  intro d hd
  rcases mem_map.mp hd with ⟨data, _, heq⟩
  rw [← heq]
  rfl

theorem Prepared.delta_commit (p : Prepared term value) (s : Store term value)
    (base now : Nat) :
    (p.commit s base now).delta =
      s.delta.putAll (Store.stamped base p.deltas) := by
  cases p with
  | _ => rfl

variable [DecidableEq posting] {cfg : IndexConfig value posting}
  {n : NativeIndex term value posting} {label : Label} {clock : Nat}

theorem Prepared.Typed.apply_sameAt
    (h : p.Typed) :
    (p.apply cfg n clock).SameAt (replayAll cfg n p.deltas) label := by
  cases p with
  | write rows ttl deltas =>
    rw [Prepared.deltas, replayAll_upserts h]
    exact ⟨rfl, rfl⟩
  | delete labels deltas =>
    rw [Prepared.deltas, replayAll_deletes h]
    exact ⟨rfl, rfl⟩
  | expire swept rows =>
    rw [Prepared.deltas, replayAll_deletes (allOf_expiredDeltas rows)]
    exact ⟨rfl, rfl⟩

variable {ds : List (DeltaRecord term value)}

private theorem deleteData_still
    (h : AllOf .delete ds) :
    (n.deleteData cfg clock ds).updateTimestamp = clock ∨
      n.deleteData cfg clock ds = n ∧
        forall d, d ∈ ds -> Ineffective n d := by
  rcases deleteData_timestamp cfg n clock ds with htime | hnone
  · exact .inl htime
  · exact .inr ⟨deleteData_absent h hnone, fun d hd => ⟨h d hd, hnone d hd⟩⟩

theorem Prepared.Typed.apply_timestamp
    (h : p.Typed) :
    (p.apply cfg n clock).updateTimestamp = clock ∨
      p.apply cfg n clock = n ∧
        forall d, d ∈ p.deltas -> Ineffective n d := by
  cases p with
  | write rows ttl deltas =>
    cases deltas with
    | nil =>
      right
      exact ⟨rfl, fun d hd => absurd hd not_mem_nil⟩
    | cons d deltas => exact .inl rfl
  | delete labels deltas => exact deleteData_still h
  | expire swept rows => exact deleteData_still (allOf_expiredDeltas rows)

/-- A batch that has its timestamps. -/
def Phase.batch : Phase term value -> Option (Prepared term value)
  | .stamped p _ => some p
  | .stored p _ => some p
  | _ => none

namespace Session

variable {x x' : Session term value posting}

/-!
# The invariant
-/

/-- The writer has its batch stamped and not committed. -/
def Stamped (x : Session term value posting) (i : Nat)
    (p : Prepared term value) (base : Nat) : Prop :=
  x.writers[i]? = some (.stamped p base)

/-- The writer has its batch committed and not handed over. -/
def Stored (x : Session term value posting) (i : Nat)
    (p : Prepared term value) (base : Nat) : Prop :=
  x.writers[i]? = some (.stored p base)

/-- What is left of the log for a label of a committed batch. -/
def Waiting (x : Session term value posting) (p : Prepared term value)
    (base : Nat) : Prop :=
  forall label, label ∈ p.labels -> forall v, v ≤ base -> Nanos v ->
    exists older,
      suffixAt x.store.delta v label =
          older ++ p.deltas.filter (fun d => d.label = label) ∧
        forall d, d ∈ older -> d.label = label ∧ exists k, v ≤ k ∧ k < base ∧
          x.store.delta.find (decimal k) = some d

structure Logged (x : Session term value posting) : Prop where
  keyed : Keyed x.store.delta
  typed : forall i p, x.ofWriter Phase.inFlight i = some p -> p.Typed
  room : forall i p base, x.Stamped i p base ->
    forall k, base ≤ k -> k < base + p.deltas.length -> Nanos k
  free : forall i p base, x.Stamped i p base ->
    Free x.store.delta base p.deltas.length
  below : forall i p base, x.Stamped i p base ->
    forall k d, x.store.delta.find (decimal k) = some d ->
      d.label ∈ p.labels -> k < base
  spread : forall i j p q base base', i ≠ j -> x.Stamped i p base ->
    x.Stamped j q base' ->
      base + p.deltas.length ≤ base' ∨ base' + q.deltas.length ≤ base
  waiting : forall i p base, x.Stored i p base -> x.Waiting p base
  covered : forall k d, x.store.delta.find (decimal k) = some d ->
    k < x.index.updateTimestamp ∨ Ineffective x.index d ∨
      exists i p base, x.Stored i p base ∧ d ∈ p.deltas ∧ base ≤ k

variable {i : Nat}

omit [DecidableEq posting] in
theorem Stamped.inFlight {base : Nat}
    (h : x.Stamped i p base) : x.ofWriter Phase.inFlight i = some p := by
  rw [ofWriter, h]
  rfl

omit [DecidableEq posting] in
theorem Stored.pending {base : Nat}
    (h : x.Stored i p base) : x.ofWriter Phase.pending i = some p := by
  rw [ofWriter, h]
  rfl

omit [DecidableEq posting] in
theorem exists_stored (h : x.ofWriter Phase.pending i = some p) :
    exists base, x.Stored i p base := by
  rcases Option.bind_eq_some_iff.mp h with ⟨phase, hget, hp⟩
  cases phase with
  | stored q base =>
    cases hp
    exact ⟨base, hget⟩
  | _ => cases hp

/-!
# Steps that leave the log alone
-/

omit [DecidableEq posting] in
/-- A step from and to a phase without a stamped or committed batch. -/
theorem Logged.quiet (h : x.Logged)
    {before after : Phase term value} (hwriter : x.writers[i]? = some before)
    (hbefore : before.pending = none) (hafter : after.batch = none)
    (htyped : forall p, after.inFlight = some p -> p.Typed) :
    (x.setPhase i after).Logged := by
  have hold : forall j p base, (x.setPhase i after).Stamped j p base ->
      x.Stamped j p base := by
    intro j p base hj
    rcases getElem?_set_cases hj with ⟨_, heq⟩ | ⟨_, hold⟩
    · rw [← heq] at hafter
      cases hafter
    · exact hold
  constructor
  · exact h.keyed
  · intro j p hj
    rcases ofWriter_setPhase hj with ⟨_, hp⟩ | ⟨_, hp⟩
    · exact htyped p hp
    · exact h.typed j p hp
  · exact fun j p base hj => h.room j p base (hold j p base hj)
  · exact fun j p base hj => h.free j p base (hold j p base hj)
  · exact fun j p base hj => h.below j p base (hold j p base hj)
  · exact fun j k p q base base' hne hj hk =>
      h.spread j k p q base base' hne (hold j p base hj) (hold k q base' hk)
  · intro j p base hj
    rcases getElem?_set_cases hj with ⟨_, heq⟩ | ⟨_, hj⟩
    · rw [← heq] at hafter
      cases hafter
    · exact h.waiting j p base hj
  · intro k d hfind
    rcases h.covered k d hfind with hlt | hine | ⟨j, p, base, hj, hd, hle⟩
    · exact .inl hlt
    · exact .inr (.inl hine)
    · refine .inr (.inr ⟨j, p, base, ?_, hd, hle⟩)
      have hne : i ≠ j := by
        intro heq
        rw [heq] at hwriter
        rw [Option.some.inj (hwriter.symm.trans hj)] at hbefore
        cases hbefore
      exact (getElem?_set_ne hne).trans hj

/-- The reading is after every record of the log. -/
def AfterLog (x : Session term value posting) (now : Nat) : Prop :=
  forall k d, x.store.delta.find (decimal k) = some d -> k < now

/-- The reading is after every timestamp that a writer is about to use. -/
def AfterStamps (x : Session term value posting) (now : Nat) : Prop :=
  forall i p base, x.Stamped i p base -> base + p.deltas.length ≤ now

omit [DecidableEq posting] in
/-- A batch gets its timestamps. -/
theorem Logged.stamp (h : x.Logged) {base : Nat}
    (hwriter : x.writers[i]? = some (.read p)) (hlog : x.AfterLog base)
    (hstamps : x.AfterStamps base)
    (hnanos : forall k, base ≤ k -> k < base + p.deltas.length -> Nanos k) :
    (x.setPhase i (.stamped p base)).Logged := by
  have hcases : forall {j q base'},
      (x.setPhase i (.stamped p base)).Stamped j q base' ->
        (j = i ∧ q = p ∧ base' = base) ∨ (j ≠ i ∧ x.Stamped j q base') := by
    intro j q base' hj
    rcases getElem?_set_cases hj with ⟨heq, hphase⟩ | hold
    · cases hphase
      exact .inl ⟨heq, rfl, rfl⟩
    · exact .inr hold
  constructor
  · exact h.keyed
  · intro j q hj
    rcases ofWriter_setPhase hj with ⟨_, hq⟩ | ⟨_, hq⟩
    · cases hq
      apply h.typed i p
      rw [ofWriter, hwriter]
      rfl
    · exact h.typed j q hq
  · intro j q base' hj
    rcases hcases hj with ⟨_, hq, hb⟩ | ⟨_, hold⟩
    · rw [hq, hb]
      exact hnanos
    · exact h.room j q base' hold
  · intro j q base' hj
    rcases hcases hj with ⟨_, hq, hb⟩ | ⟨_, hold⟩
    · rw [hb]
      exact fun k d hfind => .inl (hlog k d hfind)
    · exact h.free j q base' hold
  · intro j q base' hj
    rcases hcases hj with ⟨_, hq, hb⟩ | ⟨_, hold⟩
    · rw [hb]
      exact fun k d hfind _ => hlog k d hfind
    · exact h.below j q base' hold
  · intro j k q r b c hne hj hk
    rcases hcases hj with ⟨hji, hq, hb⟩ | ⟨_, hold⟩
    · rcases hcases hk with ⟨hki, _, _⟩ | ⟨_, hold'⟩
      · exact absurd (hji.trans hki.symm) hne
      · right
        rw [hb]
        exact hstamps k r c hold'
    · rcases hcases hk with ⟨_, _, hc⟩ | ⟨_, hold'⟩
      · left
        rw [hc]
        exact hstamps j q b hold
      · exact h.spread j k q r b c hne hold hold'
  · intro j q base' hj
    rcases getElem?_set_cases hj with ⟨_, heq⟩ | ⟨_, hold⟩
    · cases heq
    · exact h.waiting j q base' hold
  · intro k d hfind
    rcases h.covered k d hfind with hlt | hine | ⟨j, q, base', hj, hd, hle⟩
    · exact .inl hlt
    · exact .inr (.inl hine)
    · refine .inr (.inr ⟨j, q, base', ?_, hd, hle⟩)
      have hne : i ≠ j := by
        intro heq
        rw [heq, hj] at hwriter
        cases hwriter
      exact (getElem?_set_ne hne).trans hj

/-!
# Commit and hand-over
-/

omit [DecidableEq posting] in
theorem le_of_decimal_le {v k : Nat} (hv : Nanos v) (hk : Nanos k)
    (h : decimal v ≤ decimal k) : v ≤ k := by
  rcases Nat.lt_or_ge k v with hlt | hge
  · exact absurd ((Nanos.decimal_lt_iff hk hv).mpr hlt) (Std.not_lt.mpr h)
  · exact hge

/-- The session after a writer has committed its batch. -/
def committed (x : Session term value posting) (i : Nat)
    (p : Prepared term value) (base now : Nat) : Session term value posting :=
  { x.setPhase i (.stored p base) with
    store := p.commit x.store base now }

section Commit

variable {i base now : Nat} {p : Prepared term value}

variable {q : Prepared term value} {j c : Nat}

omit [DecidableEq posting] in
theorem stamped_committed
    (h : (x.committed i p base now).Stamped j q c) :
    j ≠ i ∧ x.Stamped j q c := by
  rcases getElem?_set_cases h with ⟨_, heq⟩ | hold
  · cases heq
  · exact hold

omit [DecidableEq posting] in
theorem stored_committed
    (h : (x.committed i p base now).Stored j q c) :
    (j = i ∧ q = p ∧ c = base) ∨ (j ≠ i ∧ x.Stored j q c) := by
  rcases getElem?_set_cases h with ⟨heq, hphase⟩ | hold
  · cases hphase
    exact .inl ⟨heq, rfl, rfl⟩
  · exact .inr hold

omit [DecidableEq posting] in
theorem delta_committed :
    (x.committed i p base now).store.delta =
      x.store.delta.putAll (Store.stamped base p.deltas) :=
  p.delta_commit x.store base now

variable {d : DeltaRecord term value}

omit [DecidableEq posting] in
theorem Logged.find_committed (h : x.Logged) (hi : x.Stamped i p base)
    {k : Nat} :
    (x.committed i p base now).store.delta.find (decimal k) = some d <->
      x.store.delta.find (decimal k) = some d ∨
        exists j, p.deltas[j]? = some d ∧ k = base + j := by
  rw [delta_committed, (h.free i p base hi).find_putAll, Store.mem_stamped]
  constructor
  · intro hor
    rcases hor with hold | ⟨j, hget, hkey⟩
    · exact .inl hold
    · exact .inr ⟨j, hget, decimal_injective hkey⟩
  · intro hor
    rcases hor with hold | ⟨j, hget, hkey⟩
    · exact .inl hold
    · exact .inr ⟨j, hget, congrArg decimal hkey⟩

omit [DecidableEq posting] in
theorem Logged.suffixAt_committed (h : x.Logged) (hi : x.Stamped i p base)
    {v : Nat} {label : Label}
    (hv : label ∈ p.labels -> v ≤ base ∧ Nanos v) :
    suffixAt (x.committed i p base now).store.delta v label =
      suffixAt x.store.delta v label ++
        p.deltas.filter fun d => d.label = label := by
  rw [delta_committed]
  refine suffixAt_putAll h.keyed (h.room i p base hi) (h.free i p base hi) ?_ hv
  intro hmem k d hfind hlabel
  apply h.below i p base hi k d hfind
  rw [hlabel]
  exact hmem

omit [DecidableEq posting] in
theorem filter_label_of_notMem
    {label : Label} (h : label ∉ ds.map DeltaRecord.label) :
    ds.filter (fun d => d.label = label) = [] := by
  rw [filter_eq_nil_iff]
  intro d hd heq
  apply h
  rw [← of_decide_eq_true heq]
  exact mem_map_of_mem hd

omit [DecidableEq posting] in
theorem label_mem_of_getElem? {j : Nat} (h : ds[j]? = some d) :
    d.label ∈ ds.map DeltaRecord.label :=
  mem_map_of_mem (mem_of_getElem? h)

omit [DecidableEq posting] in
theorem Logged.keyed_committed (h : x.Logged) (hi : x.Stamped i p base) :
    Keyed (x.committed i p base now).store.delta := by
  intro key d hfind
  rw [delta_committed, (h.free i p base hi).find_putAll] at hfind
  rcases hfind with hold | hnew
  · exact h.keyed key d hold
  · rcases Store.mem_stamped.mp hnew with ⟨j, hget, hkey⟩
    have hlt := (List.getElem?_eq_some_iff.mp hget).1
    exact ⟨base + j, hkey, h.room i p base hi _ (by omega) (by omega)⟩

omit [DecidableEq posting] in
theorem Logged.waiting_committed (h : x.Logged) (hi : x.Stamped i p base) :
    (x.committed i p base now).Waiting p base := by
  intro label hlabel v hle hnv
  refine ⟨suffixAt x.store.delta v label,
    h.suffixAt_committed hi (fun _ => ⟨hle, hnv⟩), ?_⟩
  intro d hd
  rcases mem_map.mp hd with ⟨b, hb, heq⟩
  rcases mem_entriesAt.mp hb with ⟨⟨hfind, hfrom⟩, hblabel⟩
  rcases h.keyed b.1 b.2 hfind with ⟨k, hk, hnk⟩
  rw [hk, heq] at hfind
  rw [hk] at hfrom
  rw [heq] at hblabel
  refine ⟨hblabel, k, le_of_decimal_le hnv hnk hfrom, ?_,
    (h.find_committed hi).mpr (.inl hfind)⟩
  apply h.below i p base hi k d hfind
  rw [hblabel]
  exact hlabel

omit [DecidableEq posting] in
theorem Logged.waiting_other (h : x.Logged) (hi : x.Stamped i p base)
    (hj : x.Stored j q c)
    (hdisjoint : List.Disjoint q.labels p.labels) :
    (x.committed i p base now).Waiting q c := by
  intro label hlabel v hle hnv
  rcases h.waiting j q c hj label hlabel v hle hnv with
    ⟨older, hsuffix, holder⟩
  refine ⟨older, ?_, ?_⟩
  · rw [h.suffixAt_committed hi fun hmem => absurd hmem (hdisjoint hlabel),
      filter_label_of_notMem (hdisjoint hlabel), append_nil]
    exact hsuffix
  · intro d hd
    rcases holder d hd with ⟨hdlabel, k, hvk, hkc, hfind⟩
    exact ⟨hdlabel, k, hvk, hkc, (h.find_committed hi).mpr (.inl hfind)⟩

theorem Logged.commit (h : x.Logged) (hsettled : x.Settled cfg)
    (hi : x.Stamped i p base) : (x.committed i p base now).Logged := by
  have hapart : forall {j q}, j ≠ i -> x.ofWriter Phase.inFlight j = some q ->
      List.Disjoint q.labels p.labels :=
    fun hne hj => hsettled.apart _ i _ p hne hj hi.inFlight
  constructor
  · exact h.keyed_committed hi
  · intro j q hj
    rcases ofWriter_setPhase hj with ⟨_, hq⟩ | ⟨_, hq⟩
    · cases hq
      exact h.typed i p hi.inFlight
    · exact h.typed j q hq
  · exact fun j q c hj => h.room j q c (stamped_committed hj).2
  · intro j q c hj k d hfind
    rcases stamped_committed hj with ⟨hne, hold⟩
    rcases (h.find_committed hi).mp hfind with hfind | ⟨m, hget, hk⟩
    · exact h.free j q c hold k d hfind
    · have hlt := (List.getElem?_eq_some_iff.mp hget).1
      rcases h.spread i j p q base c (Ne.symm hne) hi hold with hle | hle
      · left
        omega
      · right
        omega
  · intro j q c hj k d hfind hlabel
    rcases stamped_committed hj with ⟨hne, hold⟩
    rcases (h.find_committed hi).mp hfind with hfind | ⟨m, hget, hk⟩
    · exact h.below j q c hold k d hfind hlabel
    · exact absurd (label_mem_of_getElem? hget) (hapart hne hold.inFlight hlabel)
  · exact fun j k q r b c hne hj hk => h.spread j k q r b c hne
      (stamped_committed hj).2 (stamped_committed hk).2
  · intro j q c hj
    rcases stored_committed hj with ⟨_, hq, hc⟩ | ⟨hne, hold⟩
    · rw [hq, hc]
      exact h.waiting_committed hi
    · exact h.waiting_other hi hold
        (hapart hne (ofWriter_inFlight (.inr hold.pending)))
  · intro k d hfind
    rcases (h.find_committed hi).mp hfind with hfind | ⟨m, hget, hk⟩
    · rcases h.covered k d hfind with hlt | hine | ⟨j, q, c, hj, hd, hle⟩
      · exact .inl hlt
      · exact .inr (.inl hine)
      · refine .inr (.inr ⟨j, q, c, ?_, hd, hle⟩)
        have hne : i ≠ j := by
          intro heq
          rw [heq] at hi
          cases hi.symm.trans hj
        exact (List.getElem?_set_ne hne).trans hj
    · refine .inr (.inr ⟨i, p, base, ?_, List.mem_of_getElem? hget, ?_⟩)
      · exact getElem?_set_of_some hi
      · omega

end Commit

/-- The session after a writer has handed its batch over. -/
def handedOver (cfg : IndexConfig value posting)
    (x : Session term value posting) (i : Nat) (p : Prepared term value)
    (clock : Nat) : Session term value posting :=
  { x.setPhase i (.applied p.changed) with
    index := p.apply cfg x.index clock }

section HandOver

variable {i base clock : Nat} {p : Prepared term value}

theorem stored_handedOver
    (h : (handedOver cfg x i p clock).Stored j q c) :
    j ≠ i ∧ x.Stored j q c := by
  rcases getElem?_set_cases h with ⟨_, heq⟩ | hold
  · cases heq
  · exact hold

theorem stamped_handedOver
    (h : (handedOver cfg x i p clock).Stamped j q c) : x.Stamped j q c := by
  rcases getElem?_set_cases h with ⟨_, heq⟩ | ⟨_, hold⟩
  · cases heq
  · exact hold

theorem Logged.handOver (h : x.Logged) (hi : x.Stored i p base)
    (hlog : x.AfterLog clock) : (handedOver cfg x i p clock).Logged := by
  constructor
  · exact h.keyed
  · intro j q hj
    rcases ofWriter_setPhase hj with ⟨_, hq⟩ | ⟨_, hq⟩
    · cases hq
    · exact h.typed j q hq
  · exact fun j q c hj => h.room j q c (stamped_handedOver hj)
  · exact fun j q c hj => h.free j q c (stamped_handedOver hj)
  · exact fun j q c hj => h.below j q c (stamped_handedOver hj)
  · exact fun j k q r b c hne hj hk => h.spread j k q r b c hne
      (stamped_handedOver hj) (stamped_handedOver hk)
  · exact fun j q c hj => h.waiting j q c (stored_handedOver hj).2
  · intro k d hfind
    have htyped := h.typed i p (ofWriter_inFlight (.inr hi.pending))
    have hchange : (p.apply cfg x.index clock).updateTimestamp = clock ∨ _ :=
      htyped.apply_timestamp
    rcases hchange with htime | ⟨hsame, hine⟩
    · left
      show k < (p.apply cfg x.index clock).updateTimestamp
      rw [htime]
      exact hlog k d hfind
    show k < (p.apply cfg x.index clock).updateTimestamp ∨
      Ineffective (p.apply cfg x.index clock) d ∨ _
    rw [hsame]
    rcases h.covered k d hfind with hlt | hold | ⟨j, q, c, hj, hd, hle⟩
    · exact .inl hlt
    · exact .inr (.inl hold)
    · by_cases heq : i = j
      · rw [← heq] at hj
        cases hi.symm.trans hj
        exact .inr (.inl (hine d hd))
      · refine .inr (.inr ⟨j, q, c, ?_, hd, hle⟩)
        exact (getElem?_set_ne heq).trans hj

end HandOver

/-!
# Steps
-/

/-- The condition on the clock.  A batch of `n` records takes `n` consecutive
nanoseconds for its timestamps, and the clock is read after them. -/
def OnTime (x : Session term value posting) : WriterStep term value -> Prop
  | .stamp i base => x.AfterLog base ∧ x.AfterStamps base ∧
      forall p, x.writers[i]? = some (.read p) ->
        forall k, base ≤ k -> k < base + p.deltas.length -> Nanos k
  | .apply _ clock => x.AfterLog clock
  | _ => True

theorem Logged.step (h : x.Logged) (hsettled : x.Settled cfg)
    {l : WriterStep term value} (htime : x.OnTime l)
    (hmoves : Moves cfg x l x') : x'.Logged := by
  cases hmoves with
  | enter hwriter =>
    exact h.quiet hwriter rfl rfl fun p heq => by cases heq
  | scan hwriter =>
    exact h.quiet hwriter rfl rfl fun p heq => by cases heq
  | read hreading =>
    rcases hsettled.reading hreading with
      ⟨before, hwriter, hpending, hfresh⟩
    apply h.quiet hwriter hpending rfl
    intro p heq
    cases heq
    exact hfresh.typed
  | stamp hwriter =>
    exact h.stamp hwriter htime.1 htime.2.1 (htime.2.2 _ hwriter)
  | refuse hwriter hser =>
    exact h.quiet hwriter rfl rfl fun p heq => by cases heq
  | commit hwriter hser => exact h.commit hsettled hwriter
  | apply hwriter => exact h.handOver hwriter htime
  | leave hwriter =>
    exact h.quiet hwriter rfl rfl fun p heq => by cases heq

end Session
end Collection
end OpenViking
