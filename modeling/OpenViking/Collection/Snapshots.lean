import OpenViking.Collection.Logged

/-!
# Snapshots of an index

A snapshot under a timestamp restores the index if the records from that
timestamp on bring it to the store.  It keeps restoring it while the writers
go on.
-/

namespace OpenViking
namespace Collection

open Paths List
open OpenViking.Vector

variable {term value posting : Type} [DecidableEq posting]
  {cfg : IndexConfig value posting} {n : NativeIndex term value posting}
  {v : Nat} {x x' : Session term value posting}

namespace Session

structure Restores (cfg : IndexConfig value posting)
    (x : Session term value posting) (v : Nat)
    (n : NativeIndex term value posting) : Prop where
  timestamp : n.updateTimestamp = v
  nanos : Nanos v
  /-- No batch is about to be logged before the snapshot. -/
  before : forall i p base, x.Stamped i p base -> p.deltas ≠ [] -> v ≤ base
  follows : forall label,
    (replayAll cfg n (suffixAt x.store.delta v label)).FollowsAt cfg x.store
      label

/-!
# Steps of the writers
-/

section

variable (h : x.Restores cfg v n)

include h

theorem Restores.congr (hstore : x'.store = x.store)
    (hbefore : forall i p base, x'.Stamped i p base -> p.deltas ≠ [] ->
      v ≤ base) : x'.Restores cfg v n := by
  refine ⟨h.timestamp, h.nanos, hbefore, ?_⟩
  rw [hstore]
  exact h.follows

theorem Restores.quiet {i : Nat} {after : Phase term value}
    (hafter : forall p base, after = .stamped p base -> v ≤ base) :
    (x.setPhase i after).Restores cfg v n := by
  refine h.congr rfl ?_
  intro j p base hj hne
  rcases Interleaving.getElem?_set_cases hj with ⟨_, heq⟩ | ⟨_, hold⟩
  · exact hafter p base heq.symm
  · exact h.before j p base hold hne

theorem Restores.commit (hsettled : x.Settled cfg)
    (hlogged : x.Logged) {i base now : Nat} {p : Prepared term value}
    (hi : x.Stamped i p base) :
    (x.committed i p base now).Restores cfg v n := by
  refine ⟨h.timestamp, h.nanos, ?_, ?_⟩
  · exact fun j q c hj => h.before j q c (stamped_committed hj).2
  intro label
  have hfresh : p.Fresh x.store := by
    apply hsettled.fresh i p
    rw [ofWriter, hi]
    rfl
  have hsuffix : suffixAt (x.committed i p base now).store.delta v label =
        suffixAt x.store.delta v label ++
          p.deltas.filter fun d => d.label = label := by
    apply hlogged.suffixAt_committed hi
    intro hmem
    rcases mem_map.mp hmem with ⟨d, hd, _⟩
    exact ⟨h.before i p base hi (ne_nil_of_mem hd), h.nanos⟩
  rw [hsuffix, replayAll_append]
  have hbatch : (replayAll cfg (replayAll cfg n (suffixAt x.store.delta v label))
        (p.deltas.filter fun d => d.label = label)).SameAt
      (p.apply cfg (replayAll cfg n (suffixAt x.store.delta v label)) now)
      label :=
    (replayAll_filter _ p.deltas label).symm.trans hfresh.typed.apply_sameAt.symm
  exact NativeIndex.FollowsAt.of_sameAt hbatch
    (Prepared.commit_followsAt hfresh (h.follows label) base now now)

theorem Restores.step (hsettled : x.Settled cfg)
    (hlogged : x.Logged) {l : WriterStep term value}
    (hstamp : forall i base, l = .stamp i base -> v ≤ base)
    (hmoves : Moves cfg x l x') : x'.Restores cfg v n := by
  cases hmoves with
  | stamp hwriter =>
    apply h.quiet
    intro p base heq
    cases heq
    exact hstamp _ _ rfl
  | commit hwriter hser => exact h.commit hsettled hlogged hwriter
  | apply hwriter =>
    refine h.congr rfl ?_
    exact fun j q c hj => h.before j q c (stamped_handedOver hj)
  | _ => exact h.quiet fun p base heq => by cases heq

end

/-!
# A new snapshot
-/

/-- No batch under a timestamp before the index's own is still to be handed
over. -/
def NoneBehind (x : Session term value posting) : Prop :=
  forall i p base, x.Stamped i p base ∨ x.Stored i p base ->
    p.deltas ≠ [] -> x.index.updateTimestamp ≤ base

omit [DecidableEq posting] in
theorem find_of_mem_suffixAt {table : Assoc Str (DeltaRecord term value)}
    (hkeyed : Keyed table) (hv : Nanos v) {label : Label}
    {d : DeltaRecord term value} (h : d ∈ suffixAt table v label) :
    d.label = label ∧
      exists k, v ≤ k ∧ table.find (decimal k) = some d := by
  rcases mem_map.mp h with ⟨b, hb, heq⟩
  rcases mem_entriesAt.mp hb with ⟨⟨hfind, hfrom⟩, hlabel⟩
  rcases hkeyed b.1 b.2 hfind with ⟨k, hk, hnk⟩
  rw [heq] at hlabel hfind
  rw [hk] at hfind hfrom
  exact ⟨hlabel, k, le_of_decimal_le hv hnk hfrom, hfind⟩

theorem Restores.dump (hsettled : x.Settled cfg) (hlogged : x.Logged)
    (hnanos : Nanos x.index.updateTimestamp) (hnone : x.NoneBehind) :
    x.Restores cfg x.index.updateTimestamp x.index := by
  refine ⟨rfl, hnanos, fun i p base hi => hnone i p base (Or.inl hi), ?_⟩
  intro label
  by_cases hwaits : exists i p,
      x.ofWriter Phase.pending i = some p ∧ label ∈ p.labels
  · rcases hwaits with ⟨i, p, hp, hlabel⟩
    rcases exists_stored hp with ⟨base, hi⟩
    have hne : p.deltas ≠ [] := by
      rcases mem_map.mp hlabel with ⟨d, hd, _⟩
      exact ne_nil_of_mem hd
    rcases hlogged.waiting i p base hi label hlabel _
      (hnone i p base (Or.inr hi) hne) hnanos with ⟨older, hsuffix, holder⟩
    have hine : forall d, d ∈ older -> Ineffective x.index d := by
      intro d hd
      rcases holder d hd with ⟨hdlabel, k, hvk, hkb, hfind⟩
      rcases hlogged.covered k d hfind with
        hlt | hine | ⟨j, q, c, hj, hdq, hck⟩
      · omega
      · exact hine
      · have hmem : label ∈ q.labels := by
          rw [← hdlabel]
          exact mem_map_of_mem hdq
        by_cases heq : j = i
        · rw [heq] at hj
          cases hj.symm.trans hi
          omega
        · exact absurd hlabel (hsettled.apart j i q p heq
            (ofWriter_inFlight (Or.inr hj.pending))
            (ofWriter_inFlight (Or.inr hp)) hmem)
    rw [hsuffix, replayAll_append, replayAll_ineffective hine]
    have htyped := hlogged.typed i p (ofWriter_inFlight (Or.inr hp))
    exact NativeIndex.FollowsAt.of_sameAt
      ((replayAll_filter _ p.deltas label).symm.trans htyped.apply_sameAt.symm)
      (hsettled.pending i p hp label hlabel 0)
  · have hine : forall d,
        d ∈ suffixAt x.store.delta x.index.updateTimestamp label ->
          Ineffective x.index d := by
      intro d hd
      rcases find_of_mem_suffixAt hlogged.keyed hnanos hd with
        ⟨hdlabel, k, hvk, hfind⟩
      rcases hlogged.covered k d hfind with
        hlt | hine | ⟨j, q, c, hj, hdq, hck⟩
      · omega
      · exact hine
      · refine absurd ⟨j, q, hj.pending, ?_⟩ hwaits
        rw [← hdlabel]
        exact mem_map_of_mem hdq
    rw [replayAll_ineffective hine]
    apply hsettled.settled label
    exact fun j q hq hmem => hwaits ⟨j, q, hq, hmem⟩

/-!
# Replay of a snapshot
-/

/-- What `_recover` makes of the snapshot. -/
def replayed (cfg : IndexConfig value posting)
    (x : Session term value posting) (v : Nat)
    (n : NativeIndex term value posting) (now : Nat) (gap : Nat -> Nat) :
    Replayed term value posting :=
  replayRecords cfg gap (n, now) [] [] (x.store.getDeltaDataAfterTs v)

omit [DecidableEq posting] in
theorem filter_getDeltaDataAfterTs (s : Store term value) (v : Nat)
    (label : Label) :
    (s.getDeltaDataAfterTs v).filter (fun d => d.label = label) =
      suffixAt s.delta v label := by
  rw [Store.getDeltaDataAfterTs, filter_map]
  rfl

theorem Restores.replayed_follows (h : x.Restores cfg v n) (now : Nat)
    (gap : Nat -> Nat) : (x.replayed cfg v n now gap).1.Follows cfg x.store := by
  intro label
  have hsame : (x.replayed cfg v n now gap).1.SameAt
      (replayAll cfg n (x.store.getDeltaDataAfterTs v)) label :=
    replayRecords_sameAt AllOf.nil AllOf.nil (Or.inl rfl)
  have hfilter : (replayAll cfg n (x.store.getDeltaDataAfterTs v)).SameAt _
      label := replayAll_filter n (x.store.getDeltaDataAfterTs v) label
  rw [filter_getDeltaDataAfterTs] at hfilter
  exact NativeIndex.FollowsAt.of_sameAt (hsame.trans hfilter) (h.follows label)

/-- A new process over the store. -/
def restarted (x : Session term value posting)
    (n : NativeIndex term value posting) : Session term value posting where
  store := x.store
  index := n
  writers := x.writers.map fun _ => .idle

omit [DecidableEq posting] in
theorem idle_restarted {i : Nat} {phase : Phase term value}
    (h : (x.restarted n).writers[i]? = some phase) : phase = .idle := by
  rcases mem_map.mp (mem_of_getElem? h) with ⟨_, _, heq⟩
  exact heq.symm

omit [DecidableEq posting] in
theorem ofWriter_restarted {α : Type} {f : Phase term value -> Option α}
    {i : Nat} {a : α} (hf : f .idle = none) :
    (x.restarted n).ofWriter f i ≠ some a := by
  intro h
  rcases Option.bind_eq_some_iff.mp h with ⟨phase, hget, hphase⟩
  rw [idle_restarted hget, hf] at hphase
  cases hphase

theorem settled_restarted (hlabelled : x.store.Labelled)
    (hfollows : n.Follows cfg x.store) : (x.restarted n).Settled cfg := by
  constructor
  · exact hlabelled
  · intro i rows ttl hi
    cases idle_restarted hi
  · exact fun i j p q _ hi => absurd hi (ofWriter_restarted rfl)
  · exact fun i p hi => absurd hi (ofWriter_restarted rfl)
  · exact fun i p hi => absurd hi (ofWriter_restarted rfl)
  · exact fun label _ => hfollows label

omit [DecidableEq posting] in
theorem logged_restarted (hkeyed : Keyed x.store.delta)
    (hcovered : forall k d, x.store.delta.find (decimal k) = some d ->
      k < n.updateTimestamp ∨ Ineffective n d) : (x.restarted n).Logged := by
  constructor
  · exact hkeyed
  · exact fun i p hi => absurd hi (ofWriter_restarted rfl)
  · exact fun i p base hi => absurd (idle_restarted hi) (by simp)
  · exact fun i p base hi => absurd (idle_restarted hi) (by simp)
  · exact fun i p base hi => absurd (idle_restarted hi) (by simp)
  · exact fun i j p q b c _ hi => absurd (idle_restarted hi) (by simp)
  · exact fun i p base hi => absurd (idle_restarted hi) (by simp)
  · intro k d hfind
    rcases hcovered k d hfind with hlt | hine
    · exact .inl hlt
    · exact .inr (Or.inl hine)

theorem Restores.replayed_covered (h : x.Restores cfg v n)
    (hkeyed : Keyed x.store.delta) {now : Nat} (hlog : x.AfterLog now)
    (gap : Nat -> Nat) (k : Nat) (d : DeltaRecord term value)
    (hfind : x.store.delta.find (decimal k) = some d) :
    k < (x.replayed cfg v n now gap).1.updateTimestamp ∨
      Ineffective (x.replayed cfg v n now gap).1 d := by
  have hadvances : Advances (n, now) (x.replayed cfg v n now gap)
      ([] ++ [] ++ x.store.getDeltaDataAfterTs v) :=
    replayRecords_advances AllOf.nil
  cases hadvances with
  | moved hlt hle =>
    left
    exact (hlog k d hfind).trans hlt
  | still heq hle hine =>
    rw [heq]
    rcases Nat.lt_or_ge k v with hlt | hge
    · left
      rw [h.timestamp]
      exact hlt
    right
    apply hine d
    rcases hkeyed _ d hfind with ⟨k', hk, hnk⟩
    rw [← decimal_injective hk] at hnk
    apply mem_map.mpr
    refine ⟨(decimal k, d), mem_seekToEnd.mpr ⟨hfind, ?_⟩, rfl⟩
    rcases Nat.lt_or_eq_of_le hge with hlt | heq'
    · exact Std.le_of_lt ((Nanos.decimal_lt_iff h.nanos hnk).mpr hlt)
    · rw [heq']

theorem Restores.restarted (h : x.Restores cfg v n)
    (m : NativeIndex term value posting) :
    (x.restarted m).Restores cfg v n := by
  refine h.congr rfl ?_
  intro i p base hi
  cases idle_restarted hi

end Session
end Collection
end OpenViking
