import OpenViking.Collection.FollowsStore
import OpenViking.Collection.Writers

/-!
# Writers that keep apart

Writers that touch no common label between the read of the old rows and the
hand-over to the index leave every label in one of two states: the index has
it as the store has it, or one writer holds the records that are still to be
handed over.
-/

namespace OpenViking
namespace Collection

open Paths Interleaving NativeIndex Prepared Phase
open OpenViking.Vector

variable {term value posting : Type}

/-!
# One prepared mutation
-/

/-- The records of the mutation carry what the store has now. -/
def Prepared.Fresh (s : Store term value) : Prepared term value -> Prop
  | .write rows _ deltas =>
    deltas = s.upsertDeltas rows ∧ (rows.map CandidateData.label).Nodup
  | .delete labels deltas => deltas = s.deleteDeltas labels
  | .expire _ rows => forall data, data ∈ rows ->
      s.cands.find data.label = some data

variable {label : Label} {s : Store term value}

theorem oldFields_congr {s' : Store term value}
    (h : s'.cands.find label = s.cands.find label) :
    s'.oldFields label = s.oldFields label := by
  rw [Store.oldFields, Store.oldFields, h]

variable {p : Prepared term value}

theorem Prepared.Fresh.congr {s' : Store term value} (h : p.Fresh s)
    (hsame : forall label, label ∈ p.labels ->
      s'.cands.find label = s.cands.find label) : p.Fresh s' := by
  cases p with
  | write rows ttl deltas =>
    rcases h with ⟨hdeltas, hnodup⟩
    refine ⟨?_, hnodup⟩
    rw [hdeltas]
    apply List.map_congr_left
    intro data hdata
    rw [oldFields_congr (hsame data.label _)]
    rw [Prepared.labels, Prepared.deltas, hdeltas, map_label_upsertDeltas]
    exact List.mem_map_of_mem hdata
  | delete labels deltas =>
    rw [Prepared.Fresh] at h ⊢
    rw [h]
    apply List.map_congr_left
    intro label hlabel
    rw [oldFields_congr (hsame label _)]
    rw [Prepared.labels, Prepared.deltas, h, map_label_deleteDeltas]
    exact hlabel
  | expire swept rows =>
    intro data hdata
    rw [hsame data.label _]
    · exact h data hdata
    · rw [Prepared.labels, Prepared.deltas, map_label_expiredDeltas]
      exact List.mem_map_of_mem hdata

theorem Prepared.find_commit_other (h : p.Fresh s) (base now : Nat)
    (hlabel : label ∉ p.labels) :
    (p.commit s base now).cands.find label = s.cands.find label := by
  cases p with
  | write rows ttl deltas =>
    rw [Prepared.labels, Prepared.deltas, h.1, map_label_upsertDeltas] at hlabel
    have hrow := lastRow_withExpiry ttl now rows label
    rw [lastRow_eq_none_iff.mpr hlabel] at hrow
    change lastRow _ _ = none at hrow
    show (s.putRows _ _ _ _).cands.find label = _
    rw [find_putRows, hrow]
    rfl
  | delete labels deltas =>
    rw [Prepared.Fresh] at h
    rw [Prepared.labels, Prepared.deltas, h, map_label_deleteDeltas] at hlabel
    show (s.cands.delAll labels).find label = _
    rw [Assoc.find_delAll, if_neg hlabel]
  | expire swept rows =>
    rw [Prepared.labels, Prepared.deltas, map_label_expiredDeltas] at hlabel
    show (s.cands.delAll (rows.map CandidateData.label)).find label = _
    rw [Assoc.find_delAll, if_neg hlabel]

theorem Prepared.labelled_commit (h : s.Labelled)
    (p : Prepared term value) (base now : Nat) :
    (p.commit s base now).Labelled := by
  cases p with
  | write rows ttl deltas => exact labelled_putRows h ttl base _ _
  | delete labels deltas => exact labelled_of_delAll h rfl
  | expire swept rows => exact labelled_of_delAll h rfl

variable [DecidableEq posting] {cfg : IndexConfig value posting}
  {n m : NativeIndex term value posting}

theorem Prepared.commit_followsAt (h : p.Fresh s)
    (hfollows : n.FollowsAt cfg s label) (base now clock : Nat) :
    (p.apply cfg n clock).FollowsAt cfg (p.commit s base now) label := by
  cases p with
  | write rows ttl deltas =>
    rw [h.1]
    exact followsAt_upsert_of_nodup h.2 hfollows ttl _ base now clock
  | delete labels deltas =>
    rw [Prepared.Fresh] at h
    apply followsAt_delete hfollows
    · intro d hd
      rw [h] at hd
      rcases List.mem_map.mp hd with ⟨label, _, heq⟩
      rw [← heq]
      rfl
    · rw [h, map_label_deleteDeltas]
      exact Assoc.find_delAll ..
  | expire swept rows =>
    apply followsAt_delete hfollows
    · intro d hd
      rcases List.mem_map.mp hd with ⟨data, hdata, heq⟩
      rw [← heq]
      show data.fields = s.oldFields data.label
      rw [Store.oldFields, h data hdata]
    · rw [map_label_expiredDeltas]
      exact Assoc.find_delAll ..

theorem Prepared.apply_other (h : label ∉ p.labels) (clock : Nat) :
    (p.apply cfg n clock).SameAt n label := by
  cases p with
  | write rows ttl deltas => exact upsertData_other h
  | delete labels deltas => exact deleteData_other h
  | expire swept rows => exact deleteData_other h

theorem Prepared.apply_sameAt (p : Prepared term value)
    (h : n.SameAt m label) (clock clock' : Nat) :
    (p.apply cfg n clock).SameAt (p.apply cfg m clock') label := by
  cases p with
  | write rows ttl deltas => exact upsertData_sameAt h
  | delete labels deltas => exact deleteData_sameAt h
  | expire swept rows => exact deleteData_sameAt h

/-!
# The invariant
-/

namespace Session

variable {x x' : Session term value posting}

variable {i : Nat}

variable {phase : Phase term value}

omit [DecidableEq posting] in
theorem ofWriter_setPhase {α : Type} {f : Phase term value -> Option α}
    {j : Nat} {a : α}
    (h : (x.setPhase i phase).ofWriter f j = some a) :
    (j = i ∧ f phase = some a) ∨ (j ≠ i ∧ x.ofWriter f j = some a) := by
  rw [ofWriter, Option.bind_eq_some_iff] at h
  rcases h with ⟨ph, hget, hf⟩
  rcases getElem?_set_cases hget with ⟨heq, hph⟩ | ⟨hne, hold⟩
  · rw [hph] at hf
    exact .inl ⟨heq, hf⟩
  · refine .inr ⟨hne, ?_⟩
    rw [ofWriter, hold]
    exact hf

structure Settled (cfg : IndexConfig value posting)
    (x : Session term value posting) : Prop where
  labelled : x.store.Labelled
  distinct : forall (i : Nat) (rows : List (CandidateData term value)) ttl,
    x.writers[i]? = some (Phase.entered (.write rows ttl)) ->
      (rows.map CandidateData.label).Nodup
  apart : forall i j p q, i ≠ j -> x.ofWriter Phase.inFlight i = some p ->
    x.ofWriter Phase.inFlight j = some q -> List.Disjoint p.labels q.labels
  fresh : forall i p, x.ofWriter Phase.unstored i = some p ->
    p.Fresh x.store
  pending : forall i p, x.ofWriter Phase.pending i = some p ->
    forall label, label ∈ p.labels -> forall clock,
      (p.apply cfg x.index clock).FollowsAt cfg x.store label
  settled : forall label,
    (forall i p, x.ofWriter Phase.pending i = some p -> label ∉ p.labels) ->
      x.index.FollowsAt cfg x.store label

variable {p : Prepared term value}

omit [DecidableEq posting] in
theorem inFlight_of_unstored (h : phase.unstored = some p) :
    phase.inFlight = some p := by
  rw [inFlight, h]
  rfl

omit [DecidableEq posting] in
theorem inFlight_of_pending (h : phase.pending = some p) :
    phase.inFlight = some p := by
  cases phase with
  | stored q base => exact h
  | _ => cases h

variable {before : Phase term value}

/-- A step that prepares nothing, writes nothing and hands nothing over. -/
theorem Settled.quiet (h : x.Settled cfg)
    {after : Phase term value} (hwriter : x.writers[i]? = some before)
    (hunstored : forall p, after.unstored = some p ->
      before.unstored = some p)
    (hpending : after.pending = before.pending)
    (hdistinct : forall rows ttl, after = .entered (.write rows ttl) ->
      (rows.map CandidateData.label).Nodup) :
    (x.setPhase i after).Settled cfg := by
  have hfun : forall {α : Type} (f : Phase term value -> Option α) j a,
      (forall a, f after = some a -> f before = some a) ->
      (x.setPhase i after).ofWriter f j = some a -> x.ofWriter f j = some a := by
    intro α f j a himp hj
    rcases ofWriter_setPhase hj with ⟨heq, hf⟩ | ⟨_, hold⟩
    · rw [heq, ofWriter, hwriter]
      exact himp a hf
    · exact hold
  have hflight : forall p, after.inFlight = some p ->
      before.inFlight = some p := by
    intro p hp
    rw [inFlight, hpending] at hp
    rcases Option.or_eq_some_iff.mp hp with hu | ⟨_, hs⟩
    · exact inFlight_of_unstored (hunstored p hu)
    · exact inFlight_of_pending hs
  constructor
  · exact h.labelled
  · intro j rows ttl hj
    rcases getElem?_set_cases hj with ⟨_, heq⟩ | ⟨_, hold⟩
    · exact hdistinct rows ttl heq.symm
    · exact h.distinct j rows ttl hold
  · intro j k p q hne hj hk
    exact h.apart j k p q hne (hfun _ j p hflight hj) (hfun _ k q hflight hk)
  · intro j p hj
    exact h.fresh j p (hfun _ j p hunstored hj)
  · intro j p hj
    apply h.pending j p
    apply hfun _ j p _ hj
    rw [hpending]
    exact fun _ => id
  · intro label hnone
    apply h.settled label
    intro j p hj
    by_cases heq : j = i
    · rw [heq, ofWriter, hwriter] at hj
      apply hnone i p
      rw [ofWriter, setPhase, getElem?_set_of_some hwriter]
      show after.pending = some p
      rw [hpending]
      exact hj
    · apply hnone j p
      rw [ofWriter, setPhase, List.getElem?_set_ne (Ne.symm heq)]
      exact hj

omit [DecidableEq posting] in
theorem ofWriter_setPhase_ne {α : Type} {f : Phase term value -> Option α}
    {j : Nat} (phase : Phase term value) (h : j ≠ i) :
    (x.setPhase i phase).ofWriter f j = x.ofWriter f j := by
  rw [ofWriter, setPhase, List.getElem?_set_ne (Ne.symm h)]
  rfl

omit [DecidableEq posting] in
theorem ofWriter_setPhase_self {α : Type} {f : Phase term value -> Option α}
    (phase : Phase term value)
    (h : x.writers[i]? = some before) :
    (x.setPhase i phase).ofWriter f i = f phase := by
  rw [ofWriter, setPhase, getElem?_set_of_some h]
  rfl

/-- A fresh mutation that shares no label with those in flight. -/
theorem Settled.read (h : x.Settled cfg) (hwriter : x.writers[i]? = some before)
    (hpending : before.pending = none) (hfresh : p.Fresh x.store)
    (hapart : forall j q, j ≠ i -> x.ofWriter inFlight j = some q ->
      List.Disjoint p.labels q.labels) :
    (x.setPhase i (.read p)).Settled cfg := by
  constructor
  · exact h.labelled
  · intro j rows ttl hj
    rcases getElem?_set_cases hj with ⟨_, heq⟩ | ⟨_, hold⟩
    · cases heq
    · exact h.distinct j rows ttl hold
  · intro j k q r hne hj hk
    rcases ofWriter_setPhase hj with ⟨hji, hq⟩ | ⟨hji, hq⟩
    · rcases ofWriter_setPhase hk with ⟨hki, _⟩ | ⟨hki, hr⟩
      · exact absurd (hji.trans hki.symm) hne
      · cases hq
        exact hapart k r hki hr
    · rcases ofWriter_setPhase hk with ⟨_, hr⟩ | ⟨_, hr⟩
      · cases hr
        exact (hapart j q hji hq).symm
      · exact h.apart j k q r hne hq hr
  · intro j q hj
    rcases ofWriter_setPhase hj with ⟨_, hq⟩ | ⟨_, hq⟩
    · cases hq
      exact hfresh
    · exact h.fresh j q hq
  · intro j q hj
    rcases ofWriter_setPhase hj with ⟨_, hq⟩ | ⟨_, hq⟩
    · cases hq
    · exact h.pending j q hq
  · intro label hnone
    apply h.settled label
    intro j q hj
    by_cases heq : j = i
    · rw [heq, ofWriter, hwriter] at hj
      change before.pending = some q at hj
      rw [hpending] at hj
      cases hj
    · apply hnone j q
      rw [ofWriter_setPhase_ne _ heq]
      exact hj

theorem Settled.apart_of (h : x.Settled cfg) {j : Nat}
    {q : Prepared term value} (hne : j ≠ i)
    (hi : x.ofWriter inFlight i = some p)
    (hj : x.ofWriter inFlight j = some q) {label : Label}
    (hlabel : label ∈ q.labels) : label ∉ p.labels :=
  fun hp => h.apart j i q p hne hj hi hlabel hp

omit [DecidableEq posting] in
theorem ofWriter_inFlight (h : x.ofWriter unstored i = some p ∨
      x.ofWriter pending i = some p) :
    x.ofWriter inFlight i = some p := by
  rcases h with h | h
  · rcases Option.bind_eq_some_iff.mp h with ⟨phase, hget, hp⟩
    rw [ofWriter, hget]
    exact inFlight_of_unstored hp
  · rcases Option.bind_eq_some_iff.mp h with ⟨phase, hget, hp⟩
    rw [ofWriter, hget]
    exact inFlight_of_pending hp

/-- A commit of what was read. -/
theorem Settled.commit (h : x.Settled cfg) {base now : Nat}
    (hwriter : x.writers[i]? = some (.stamped p base)) :
    ({ x.setPhase i (.stored p base) with
      store := p.commit x.store base now } :
        Session term value posting).Settled cfg := by
  have hp : x.ofWriter unstored i = some p := by
    rw [ofWriter, hwriter]
    rfl
  have hflight := ofWriter_inFlight (Or.inl hp)
  have hfresh := h.fresh i p hp
  have hother : forall label, label ∉ p.labels ->
      (p.commit x.store base now).cands.find label = x.store.cands.find label :=
    fun label hl => find_commit_other hfresh base now hl
  have hsettled : forall label, label ∈ p.labels ->
      x.index.FollowsAt cfg x.store label := by
    intro label hlabel
    apply h.settled label
    intro j q hq hmem
    by_cases heq : j = i
    · rw [heq, ofWriter, hwriter] at hq
      cases hq
    · exact h.apart_of heq hflight (ofWriter_inFlight (Or.inr hq)) hmem hlabel
  constructor
  · exact p.labelled_commit h.labelled base now
  · intro j rows ttl hj
    rcases getElem?_set_cases hj with ⟨_, heq⟩ | ⟨_, hold⟩
    · cases heq
    · exact h.distinct j rows ttl hold
  · intro j k q r hne hj hk
    rcases ofWriter_setPhase hj with ⟨hji, hq⟩ | ⟨_, hq⟩
    · rcases ofWriter_setPhase hk with ⟨hki, _⟩ | ⟨_, hr⟩
      · exact absurd (hji.trans hki.symm) hne
      · cases hq
        rw [hji] at hne
        exact h.apart i k p r hne hflight hr
    · rcases ofWriter_setPhase hk with ⟨hki, hr⟩ | ⟨_, hr⟩
      · cases hr
        rw [hki] at hne
        exact h.apart j i q p hne hq hflight
      · exact h.apart j k q r hne hq hr
  · intro j q hj
    rcases ofWriter_setPhase hj with ⟨_, hq⟩ | ⟨hne, hq⟩
    · cases hq
    · apply Prepared.Fresh.congr (h.fresh j q hq)
      intro label hlabel
      exact hother label (h.apart_of hne hflight
        (ofWriter_inFlight (Or.inl hq)) hlabel)
  · intro j q hj label hlabel clock
    rcases ofWriter_setPhase hj with ⟨_, hq⟩ | ⟨hne, hq⟩
    · cases hq
      exact commit_followsAt hfresh (hsettled label hlabel) base now
        clock
    · have hfind := hother label (h.apart_of hne hflight
        (ofWriter_inFlight (Or.inr hq)) hlabel)
      rcases h.pending j q hq label hlabel clock with ⟨hpoint, hpostings⟩
      rw [← hfind] at hpoint
      rw [← oldFields_congr hfind] at hpostings
      exact ⟨hpoint, hpostings⟩
  · intro label hnone
    have hnot : label ∉ p.labels := by
      apply hnone i p
      exact ofWriter_setPhase_self (.stored p base) hwriter
    have hat : x.index.FollowsAt cfg x.store label := by
      apply h.settled label
      intro j q hq
      by_cases heq : j = i
      · rw [heq, ofWriter, hwriter] at hq
        cases hq
      · apply hnone j q
        exact (ofWriter_setPhase_ne (.stored p base) heq).trans hq
    have hfind := hother label hnot
    rcases hat with ⟨hpoint, hpostings⟩
    rw [← hfind] at hpoint
    rw [← oldFields_congr hfind] at hpostings
    exact ⟨hpoint, hpostings⟩

/-- The hand-over of what was committed. -/
theorem Settled.apply (h : x.Settled cfg) {base : Nat}
    (hwriter : x.writers[i]? = some (.stored p base))
    (changed : Bool) (clock : Nat) :
    ({ x.setPhase i (.applied changed) with
      index := p.apply cfg x.index clock } :
        Session term value posting).Settled cfg := by
  have hp : x.ofWriter Phase.pending i = some p := by
    rw [ofWriter, hwriter]
    rfl
  have hflight := ofWriter_inFlight (Or.inr hp)
  constructor
  · exact h.labelled
  · intro j rows ttl hj
    rcases getElem?_set_cases hj with ⟨_, heq⟩ | ⟨_, hold⟩
    · cases heq
    · exact h.distinct j rows ttl hold
  · intro j k q r hne hj hk
    rcases ofWriter_setPhase hj with ⟨_, hq⟩ | ⟨_, hq⟩
    · cases hq
    · rcases ofWriter_setPhase hk with ⟨_, hr⟩ | ⟨_, hr⟩
      · cases hr
      · exact h.apart j k q r hne hq hr
  · intro j q hj
    rcases ofWriter_setPhase hj with ⟨_, hq⟩ | ⟨_, hq⟩
    · cases hq
    · exact h.fresh j q hq
  · intro j q hj label hlabel clock'
    rcases ofWriter_setPhase hj with ⟨_, hq⟩ | ⟨hne, hq⟩
    · cases hq
    · have hnot := h.apart_of hne hflight (ofWriter_inFlight (Or.inr hq)) hlabel
      have hsame : (p.apply cfg x.index clock).SameAt x.index label :=
        apply_other hnot clock
      exact NativeIndex.FollowsAt.of_sameAt (q.apply_sameAt hsame clock' clock')
        (h.pending j q hq label hlabel clock')
  · intro label hnone
    by_cases hlabel : label ∈ p.labels
    · exact h.pending i p hp label hlabel clock
    have hsame : (p.apply cfg x.index clock).SameAt x.index label :=
      apply_other hlabel clock
    apply NativeIndex.FollowsAt.of_sameAt hsame
    apply h.settled label
    intro j q hq
    by_cases heq : j = i
    · rw [heq, hp] at hq
      cases hq
      exact hlabel
    · apply hnone j q
      exact (ofWriter_setPhase_ne (.applied changed) heq).trans hq

/-!
# Steps
-/

/-- The condition on a step: a batch of writes has distinct keys, and a writer
reads no old row of a label that another one in flight is about. -/
def KeepsApart (x : Session term value posting) :
    WriterStep term value -> Prop
  | .enter _ (.write rows _) => (rows.map CandidateData.label).Nodup
  | .read i => forall p, x.reading i = some p -> forall j q, j ≠ i ->
      x.ofWriter Phase.inFlight j = some q -> List.Disjoint p.labels q.labels
  | _ => True

omit [DecidableEq posting] in
theorem writer_of_reading (h : x.reading i = some p) :
    (exists m, x.writers[i]? = some (.entered m)) ∨
      exists now swept, x.writers[i]? = some (.scanned now swept) := by
  rw [Session.reading] at h
  split at h
  case h_1 rows ttl hwriter => exact .inl ⟨_, hwriter⟩
  case h_2 labels hwriter => exact .inl ⟨_, hwriter⟩
  case h_3 now swept hwriter => exact .inr ⟨now, swept, hwriter⟩
  case h_4 => cases h

theorem Settled.reading (h : x.Settled cfg) (hreading : x.reading i = some p) :
    exists before, x.writers[i]? = some before ∧ before.pending = none ∧
      p.Fresh x.store := by
  rw [Session.reading] at hreading
  cases hwriter : x.writers[i]? with
  | none =>
    rw [hwriter] at hreading
    cases hreading
  | some before =>
    rw [hwriter] at hreading
    refine ⟨before, rfl, ?_⟩
    cases before with
    | entered m =>
      cases m with
      | write rows ttl =>
        cases hreading
        exact ⟨rfl, rfl, h.distinct i rows ttl hwriter⟩
      | delete labels =>
        cases hreading
        exact ⟨rfl, rfl⟩
      | expire => cases hreading
    | scanned now swept =>
      cases hreading
      refine ⟨rfl, ?_⟩
      intro data hdata
      rcases mem_expiredCandsData.mp hdata with ⟨label, _, hfind, _⟩
      rw [h.labelled label data hfind]
      exact hfind
    | _ => cases hreading

inductive Moves (cfg : IndexConfig value posting)
    (x : Session term value posting) :
    WriterStep term value -> Session term value posting -> Prop where
  | enter {i : Nat} {m : Mutation term value} :
      x.writers[i]? = some .idle ->
        Moves cfg x (.enter i m) (x.setPhase i (.entered m))
  | scan {i now : Nat} :
      x.writers[i]? = some (.entered .expire) ->
        Moves cfg x (.scan i now) (x.setPhase i
          (.scanned now (beginToSeek x.store.ttl (decimal now))))
  | read {i : Nat} {p : Prepared term value} : x.reading i = some p ->
      Moves cfg x (.read i) (x.setPhase i (.read p))
  | stamp {i base : Nat} {p : Prepared term value} :
      x.writers[i]? = some (.read p) ->
        Moves cfg x (.stamp i base) (x.setPhase i (.stamped p base))
  | refuse {i base now : Nat} {p : Prepared term value} :
      x.writers[i]? = some (.stamped p base) ->
        p.serializeError now ≠ none ->
          Moves cfg x (.commit i now) (x.setPhase i (.applied true))
  | commit {i base now : Nat} {p : Prepared term value} :
      x.writers[i]? = some (.stamped p base) ->
        p.serializeError now = none ->
          Moves cfg x (.commit i now) { x.setPhase i (.stored p base) with
            store := p.commit x.store base now }
  | apply {i base clock : Nat} {p : Prepared term value} :
      x.writers[i]? = some (.stored p base) ->
        Moves cfg x (.apply i clock) { x.setPhase i (.applied p.changed) with
          index := p.apply cfg x.index clock }
  | leave {i : Nat} {changed : Bool} :
      x.writers[i]? = some (.applied changed) ->
        Moves cfg x (.leave i) (x.setPhase i .idle)

variable {l : WriterStep term value}

theorem moves_of_step (h : x.step cfg l = some x') : Moves cfg x l x' := by
  cases l with
  | enter i m =>
    simp only [Session.step] at h
    split at h
    case h_1 hwriter =>
      cases h
      exact Moves.enter hwriter
    case h_2 => cases h
  | scan i now =>
    simp only [Session.step] at h
    split at h
    case h_1 hwriter =>
      cases h
      exact Moves.scan hwriter
    case h_2 => cases h
  | read i =>
    rcases Option.map_eq_some_iff.mp h with ⟨p, hreading, heq⟩
    cases heq
    exact Moves.read hreading
  | stamp i base =>
    simp only [Session.step] at h
    split at h
    case h_1 p hwriter =>
      cases h
      exact Moves.stamp hwriter
    case h_2 => cases h
  | commit i now =>
    simp only [Session.step] at h
    split at h
    case h_1 p base hwriter =>
      cases hser : p.serializeError now with
      | some e =>
        rw [hser] at h
        cases h
        apply Moves.refuse hwriter
        rw [hser]
        exact Option.some_ne_none e
      | none =>
        rw [hser] at h
        cases h
        exact Moves.commit hwriter hser
    case h_2 => cases h
  | apply i clock =>
    simp only [Session.step] at h
    split at h
    case h_1 p base hwriter =>
      cases h
      exact Moves.apply hwriter
    case h_2 => cases h
  | leave i =>
    simp only [Session.step] at h
    split at h
    case h_1 changed hwriter =>
      cases h
      exact Moves.leave hwriter
    case h_2 => cases h

theorem Settled.step (h : x.Settled cfg)
    (hapart : x.KeepsApart l) (hmoves : Moves cfg x l x') :
    x'.Settled cfg := by
  cases hmoves with
  | enter hwriter =>
    refine h.quiet hwriter ?_ rfl ?_
    · nofun
    · intro rows ttl heq
      cases heq
      exact hapart
  | scan hwriter =>
    refine h.quiet hwriter ?_ rfl ?_
    · nofun
    · nofun
  | read hreading =>
    rcases h.reading hreading with ⟨before, hwriter, hpending, hfresh⟩
    exact h.read hwriter hpending hfresh (hapart _ hreading)
  | stamp hwriter =>
    refine h.quiet hwriter ?_ rfl ?_
    · intro p hp
      exact hp
    · nofun
  | refuse hwriter hser =>
    refine h.quiet hwriter ?_ rfl ?_
    · nofun
    · nofun
  | commit hwriter hser => exact h.commit hwriter
  | apply hwriter => exact h.apply hwriter _ _
  | leave hwriter =>
    refine h.quiet hwriter ?_ rfl ?_
    · nofun
    · nofun

theorem Settled.follows (h : x.Settled cfg)
    (hidle : forall i p, x.ofWriter Phase.pending i ≠ some p) :
    x.index.Follows cfg x.store :=
  fun label => h.settled label fun i p hp _ => hidle i p hp

end Session
end Collection
end OpenViking
