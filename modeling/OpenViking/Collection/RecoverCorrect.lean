import OpenViking.Collection.Snapshots
import OpenViking.Collection.WritersConverge

/-!
# Recovery after a crash

The newest version on disk is complete in every state, and replaying the log
from its timestamp on gives the store.
-/

namespace OpenViking
namespace Collection

open Paths Interleaving Assoc NativeIndex List Collection.Session Nat
open OpenViking.Vector

variable {term value posting : Type} [DecidableEq posting]
  {cfg : IndexConfig value posting}

namespace PersistCollection

variable {x x' : PersistCollection term value posting} {top : Nat}
  {n : NativeIndex term value posting}

/-- The timestamp of the index in memory. -/
def indexTs (x : PersistCollection term value posting) : Nat :=
  x.session.index.updateTimestamp

/-!
# The invariant
-/

/-- What `persist` has reached. -/
def Persisting (cfg : IndexConfig value posting)
    (x : PersistCollection term value posting) (top : Nat) :
    Maintenance -> Prop
  | .idle => True
  | .checked => top < x.indexTs
  | .made dir => top < x.indexTs ∧ top < dir ∧ dir ≤ x.clock ∧ dir ≠ x.indexTs
  | .dumped dir version => top < version ∧ version ≤ x.clock ∧ top < dir ∧
      x.disk.dirs.find version = none ∧
        exists m, x.disk.dirs.find dir = some (some m) ∧
          x.session.Restores cfg version m
  | .moved version => top < version ∧
      exists m, x.disk.dirs.find version = some (some m) ∧
        x.session.Restores cfg version m
  | .cleaning version => version = top

structure Recoverable (cfg : IndexConfig value posting)
    (x : PersistCollection term value posting) (top : Nat)
    (n : NativeIndex term value posting) : Prop where
  settled : x.session.Settled cfg
  logged : x.session.Logged
  timestamp : x.indexTs ≤ x.clock
  marked : top ∈ x.disk.markers
  newest : forall v, v ∈ x.disk.markers -> v ≤ top
  complete : x.disk.dirs.find top = some (some n)
  restores : x.session.Restores cfg top n
  named : forall name content, x.disk.dirs.find name = some content ->
    name ≤ x.clock
  unused : x.disk.dirs.find x.indexTs = none ∨ x.indexTs ≤ top ∨
    x.maintenance = .moved x.indexTs
  persisting : Persisting cfg x top x.maintenance

omit [DecidableEq posting] in
theorem foldr_max_eq {vs : List Nat} (hmem : top ∈ vs)
    (hle : forall v, v ∈ vs -> v ≤ top) : vs.foldr max 0 = top := by
  induction vs with
  | nil => cases hmem
  | cons v vs ih =>
    have hrest : vs.foldr max 0 ≤ top := by
      clear ih hmem
      induction vs with
      | nil => exact Nat.zero_le _
      | cons w vs ih =>
        apply Nat.max_le.mpr
        constructor
        · exact hle w (mem_cons_of_mem _ mem_cons_self)
        · apply ih
          intro u hu
          rcases mem_cons.mp hu with heq | hmem
          · exact hle u (heq ▸ mem_cons_self)
          · exact hle u (mem_cons_of_mem _ (mem_cons_of_mem _ hmem))
    rw [foldr_cons]
    rcases mem_cons.mp hmem with heq | hmem
    · rw [← heq]
      exact Nat.max_eq_left hrest
    · rw [ih hmem fun u hu => hle u (mem_cons_of_mem _ hu)]
      exact Nat.max_eq_right (hle v mem_cons_self)

theorem Recoverable.getNewestVersion (h : x.Recoverable cfg top n) :
    x.disk.getNewestVersion = top := by
  apply foldr_max_eq
  · apply mem_filter.mpr
    rw [h.complete]
    exact ⟨h.marked, rfl⟩
  · exact fun v hv => h.newest v (mem_filter.mp hv).1

theorem Recoverable.recover_eq (h : x.Recoverable cfg top n) (now : Nat)
    (gap : Nat -> Nat) :
    recover cfg x.disk x.session.store now gap =
      some (x.session.replayed cfg top n now gap) := by
  rw [recover, h.getNewestVersion, h.complete]
  rfl

theorem Recoverable.top_le (h : x.Recoverable cfg top n) : top ≤ x.clock :=
  h.named top _ h.complete

/-!
# Steps of the writers
-/

variable {l : WriterStep term value}

theorem timestamp_of_moves {s s' : Session term value posting} (hlogged : s.Logged)
    (hmoves : Session.Moves cfg s l s') :
    s'.index.updateTimestamp = s.index.updateTimestamp ∨
      reading l = some s'.index.updateTimestamp := by
  cases hmoves with
  | @apply i base clock p hwriter =>
    have htyped : p.Typed := by
      apply hlogged.typed i p
      apply ofWriter_inFlight
      right
      rw [ofWriter, hwriter]
      rfl
    have hchange : (p.apply cfg s.index clock).updateTimestamp = clock ∨ _ :=
      htyped.apply_timestamp
    rcases hchange with htime | ⟨hsame, _⟩
    · exact .inr (congrArg some htime.symm)
    · exact .inl (congrArg updateTimestamp hsame)
  | _ => exact .inl rfl

variable {clock : Nat}

/-- A step of a writer; its reading of the clock, if it takes one, is later
than the last one. -/
theorem Recoverable.writer (h : x.Recoverable cfg top n)
    {session : Session term value posting} (hapart : x.session.KeepsApart l)
    (htime : x.session.OnTime l) (hmoves : Session.Moves cfg x.session l session)
    (hclock : x.clock ≤ clock)
    (hreading : forall now, reading l = some now ->
      x.clock < now ∧ clock = now) :
    Recoverable cfg { x with session := session, clock := clock } top n := by
  have hstamp : forall v, v ≤ x.clock -> forall i base,
      l = .stamp i base -> v ≤ base := by
    intro v hv i base heq
    rw [heq] at hreading
    exact hv.trans (le_of_lt (hreading base rfl).1)
  have hrestores : forall {v m}, v ≤ x.clock ->
      x.session.Restores cfg v m -> session.Restores cfg v m :=
    fun hv hm => hm.step h.settled h.logged (hstamp _ hv) hmoves
  have hts : session.index.updateTimestamp = x.indexTs ∨
      x.clock < session.index.updateTimestamp ∧
        clock = session.index.updateTimestamp := by
    rcases timestamp_of_moves h.logged hmoves with hsame | hread
    · exact .inl hsame
    · exact .inr (hreading _ hread)
  have hgrows : x.indexTs ≤ session.index.updateTimestamp := by
    rcases hts with heq | ⟨hlt, _⟩
    · exact le_of_eq heq.symm
    · exact h.timestamp.trans (le_of_lt hlt)
  constructor
  · exact h.settled.step hapart hmoves
  · exact h.logged.step h.settled htime hmoves
  · rcases hts with heq | ⟨_, heq⟩
    · show session.index.updateTimestamp ≤ clock
      rw [heq]
      exact h.timestamp.trans hclock
    · exact le_of_eq heq.symm
  · exact h.marked
  · exact h.newest
  · exact h.complete
  · exact hrestores h.top_le h.restores
  · exact fun name content hfind => (h.named name content hfind).trans hclock
  · show x.disk.dirs.find session.index.updateTimestamp = none ∨
      session.index.updateTimestamp ≤ top ∨
        x.maintenance = .moved session.index.updateTimestamp
    rcases hts with heq | ⟨hlt, _⟩
    · rw [heq]
      exact h.unused
    · left
      cases hfind : x.disk.dirs.find session.index.updateTimestamp with
      | none => rfl
      | some content => exact absurd (h.named _ content hfind) (by omega)
  · have hold := h.persisting
    show Persisting cfg _ top x.maintenance
    cases hphase : x.maintenance with
    | idle => trivial
    | checked =>
      rw [hphase] at hold
      exact lt_of_lt_of_le hold hgrows
    | made dir =>
      rw [hphase] at hold
      rcases hold with ⟨htop, hdir, hle, hne⟩
      refine ⟨htop.trans_le hgrows, hdir, hle.trans hclock, ?_⟩
      show dir ≠ session.index.updateTimestamp
      rcases hts with heq | ⟨hlt, _⟩
      · rw [heq]
        exact hne
      · omega
    | dumped dir version =>
      rw [hphase] at hold
      rcases hold with ⟨htop, hle, hdir, hfree, m, hfind, hm⟩
      exact ⟨htop, hle.trans hclock, hdir, hfree, m, hfind, hrestores hle hm⟩
    | moved version =>
      rw [hphase] at hold
      rcases hold with ⟨htop, m, hfind, hm⟩
      exact ⟨htop, m, hfind, hrestores (h.named version _ hfind) hm⟩
    | cleaning version =>
      rw [hphase] at hold
      exact hold

/-!
# Steps of `persist`
-/

variable {disk : VersionDir term value posting}

section

variable (h : x.Recoverable cfg top n)

include h

theorem Recoverable.maintain
    {maintenance : Maintenance} (hmarkers : disk.markers = x.disk.markers)
    (hcomplete : disk.dirs.find top = some (some n))
    (hclock : x.clock ≤ clock)
    (hnamed : forall name content, disk.dirs.find name = some content ->
      name ≤ clock)
    (hunused : disk.dirs.find x.indexTs = none ∨ x.indexTs ≤ top ∨
      maintenance = .moved x.indexTs)
    (hpersisting : Persisting cfg { x with
      disk := disk, maintenance := maintenance, clock := clock }
        top maintenance) :
    Recoverable cfg { x with
      disk := disk, maintenance := maintenance, clock := clock } top n := by
  constructor
  · exact h.settled
  · exact h.logged
  · exact h.timestamp.trans hclock
  · show top ∈ disk.markers
    rw [hmarkers]
    exact h.marked
  · show forall v, v ∈ disk.markers -> v ≤ top
    rw [hmarkers]
    exact h.newest
  · exact hcomplete
  · exact h.restores
  · exact hnamed
  · exact hunused
  · exact hpersisting

theorem Recoverable.unused_left
    {phase : Maintenance} (hphase : x.maintenance = phase)
    (hmoved : forall v, phase ≠ .moved v) :
    x.disk.dirs.find x.indexTs = none ∨ x.indexTs ≤ top := by
  rcases h.unused with hnone | hle | hold
  · exact .inl hnone
  · exact .inr hle
  · exact absurd (hphase.symm.trans hold) (hmoved _)

theorem Recoverable.check (hphase : x.maintenance = .idle) (hlt : top < x.indexTs) :
    Recoverable cfg { x with maintenance := .checked } top n := by
  refine h.maintain rfl h.complete (le_refl _) h.named ?_ hlt
  have hunused := h.unused_left hphase fun v hv => by cases hv
  rcases hunused with hnone | hle
  · exact .inl hnone
  · omega

/-- A new directory has a name that no other one has. -/
theorem Recoverable.makeDir {now : Nat}
    (hphase : x.maintenance = .checked) (hnow : x.clock < now) :
    Recoverable cfg { x with
      disk := { x.disk with dirs := x.disk.dirs.put now none }
      maintenance := .made now
      clock := now } top n := by
  have htop := h.top_le
  have hts := h.timestamp
  have hlt : top < x.indexTs := by
    have hold := h.persisting
    rw [hphase] at hold
    exact hold
  have hunused := h.unused_left hphase fun v hv => by cases hv
  refine h.maintain rfl ?_ (le_of_lt hnow) ?_ ?_ ?_
  · show (x.disk.dirs.put now none).find top = some (some n)
    rw [find_put_ne _ _ (by omega)]
    exact h.complete
  · intro name content hfind
    change (x.disk.dirs.put now none).find name = some content at hfind
    rw [find_put] at hfind
    split at hfind
    case isTrue heq => exact le_of_eq heq
    case isFalse =>
      exact (h.named name content hfind).trans (le_of_lt hnow)
  · left
    show (x.disk.dirs.put now none).find x.indexTs = none
    rw [find_put_ne _ _ (by omega)]
    rcases hunused with hnone | hle
    · exact hnone
    · omega
  · exact ⟨hlt, by omega, le_refl _, fun heq => by
      have hback : now = x.indexTs := heq
      omega⟩

theorem Recoverable.dump {dir : Nat}
    (hphase : x.maintenance = .made dir) (hnanos : Nanos x.indexTs)
    (hnone : x.session.NoneBehind) :
    Recoverable cfg { x with
      disk := { x.disk with
        dirs := x.disk.dirs.put dir (some x.session.index) }
      maintenance := .dumped dir x.indexTs } top n := by
  have hold := h.persisting
  rw [hphase] at hold
  rcases hold with ⟨hlt, htop, hle, hne⟩
  have hfree : x.disk.dirs.find x.indexTs = none := by
    have hunused := h.unused_left hphase fun v hv => by cases hv
    rcases hunused with hnone | hle
    · exact hnone
    · omega
  refine h.maintain rfl ?_ (le_refl _) ?_ ?_ ?_
  · show (x.disk.dirs.put dir _).find top = some (some n)
    rw [find_put_ne _ _ (by omega)]
    exact h.complete
  · intro name content hfind
    change (x.disk.dirs.put dir _).find name = some content at hfind
    rw [find_put] at hfind
    split at hfind
    case isTrue heq => exact (le_of_eq heq).trans hle
    case isFalse => exact h.named name content hfind
  · left
    show (x.disk.dirs.put dir _).find x.indexTs = none
    rw [find_put_ne _ _ (Ne.symm hne)]
    exact hfree
  · refine ⟨hlt, h.timestamp, htop, ?_, x.session.index, ?_, ?_⟩
    · show (x.disk.dirs.put dir _).find x.indexTs = none
      rw [find_put_ne _ _ (Ne.symm hne)]
      exact hfree
    · exact find_put_self ..
    · exact Session.Restores.dump h.settled h.logged hnanos hnone

end

variable {version : Nat}

/-- The new directory takes the name of its version, which is free. -/
theorem Recoverable.move (h : x.Recoverable cfg top n) {dir : Nat}
    (hphase : x.maintenance = .dumped dir version)
    {content : Option (NativeIndex term value posting)}
    (hcontent : x.disk.dirs.find dir = some content) :
    Recoverable cfg { x with
      disk := { x.disk with
        dirs := (x.disk.dirs.del dir).put version content }
      maintenance := .moved version } top n := by
  have hold := h.persisting
  rw [hphase] at hold
  rcases hold with ⟨hlt, hle, htop, _, m, hfind, hm⟩
  refine h.maintain rfl ?_ (le_refl _) ?_ ?_ ?_
  · show ((x.disk.dirs.del dir).put version content).find top = some (some n)
    rw [find_put_ne _ _ (by omega), find_del_ne _ (by omega)]
    exact h.complete
  · intro name content' hname
    change ((x.disk.dirs.del dir).put version content).find name =
      some content' at hname
    rw [find_put] at hname
    split at hname
    case isTrue heq => exact (le_of_eq heq).trans hle
    case isFalse =>
      rw [find_del] at hname
      split at hname
      case isTrue => cases hname
      case isFalse => exact h.named name content' hname
  · show ((x.disk.dirs.del dir).put version content).find x.indexTs = none ∨
      x.indexTs ≤ top ∨ Maintenance.moved version = .moved x.indexTs
    rw [find_put]
    split
    case isTrue heq => exact .inr (.inr (congrArg Maintenance.moved heq.symm))
    case isFalse =>
      have hunused := h.unused_left hphase fun v hv => by cases hv
      rcases hunused with hnone | hle
      · left
        rw [find_del]
        split
        case isTrue => rfl
        case isFalse => exact hnone
      · exact .inr (.inl hle)
  · refine ⟨hlt, m, ?_, hm⟩
    show ((x.disk.dirs.del dir).put version content).find version = _
    rw [find_put_self]
    exact hcontent.symm.trans hfind

theorem Recoverable.writeDone (h : x.Recoverable cfg top n)
    (hphase : x.maintenance = .moved version) :
    exists m, Recoverable cfg { x with
      disk := { x.disk with markers := version :: x.disk.markers }
      maintenance := .cleaning version } version m := by
  have hold := h.persisting
  rw [hphase] at hold
  rcases hold with ⟨hlt, m, hfind, hm⟩
  refine ⟨m, h.settled, h.logged, h.timestamp, mem_cons_self, ?_, hfind,
    hm, h.named, ?_, rfl⟩
  · intro v hv
    rcases mem_cons.mp hv with heq | hold
    · exact le_of_eq heq
    · exact (h.newest v hold).trans (le_of_lt hlt)
  · rcases h.unused with hnone | hle | hmoved
    · exact .inl hnone
    · exact .inr (.inl (hle.trans (le_of_lt hlt)))
    · rw [hphase] at hmoved
      cases hmoved
      exact .inr (.inl (le_refl _))

omit [DecidableEq posting] in
theorem not_keeps_iff {name : Nat} :
    ¬x.keeps version name = true <-> name ≠ x.nowVersion ∧ name ≠ version := by
  rw [keeps, Bool.or_eq_true, not_or, beq_iff_eq, beq_iff_eq]

theorem Recoverable.ne_of_not_keeps (h : x.Recoverable cfg top n)
    {name : Nat} (hphase : x.maintenance = .cleaning version)
    (hkeeps : ¬x.keeps version name = true) : name ≠ top := by
  have hversion := h.persisting
  rw [hphase] at hversion
  rw [← show version = top from hversion]
  exact (not_keeps_iff.mp hkeeps).2

theorem Recoverable.clean (h : x.Recoverable cfg top n)
    (hphase : x.maintenance = .cleaning version)
    (hmarked : top ∈ disk.markers) (hmarkers : disk.markers ⊆ x.disk.markers)
    (hcomplete : disk.dirs.find top = x.disk.dirs.find top)
    (hnone : forall name, x.disk.dirs.find name = none ->
      disk.dirs.find name = none) :
    Recoverable cfg { x with disk := disk } top n := by
  have hversion := h.persisting
  rw [hphase] at hversion
  refine ⟨h.settled, h.logged, h.timestamp, hmarked,
    fun v hv => h.newest v (hmarkers hv), hcomplete.trans h.complete,
    h.restores, ?_, ?_, ?_⟩
  · intro name content hfind
    change disk.dirs.find name = some content at hfind
    cases hold : x.disk.dirs.find name with
    | none =>
      rw [hnone name hold] at hfind
      cases hfind
    | some content => exact h.named name content hold
  · have hunused := h.unused_left hphase fun v hv => by cases hv
    rcases hunused with hfree | hle
    · exact .inl (hnone _ hfree)
    · exact .inr (.inl hle)
  · show Persisting cfg _ top x.maintenance
    rw [hphase]
    exact hversion

/-!
# Restart
-/

/-- What `_recover` leaves is a collection that can be recovered again. -/
theorem Recoverable.restart (h : x.Recoverable cfg top n) {now : Nat}
    (hnow : x.clock < now) (hlog : x.session.AfterLog now)
    (gap : Nat -> Nat) (nowVersion : Nat) :
    Recoverable cfg
      { session := x.session.restarted (x.session.replayed cfg top n now gap).1
        disk := x.disk
        maintenance := .idle
        nowVersion := nowVersion
        clock := (x.session.replayed cfg top n now gap).2 } top n := by
  have hfollows := h.restores.replayed_follows now gap
  have hcovered := h.restores.replayed_covered h.logged.keyed hlog gap
  have hadvances : Advances (n, now) (x.session.replayed cfg top n now gap)
      ([] ++ [] ++ x.session.store.getDeltaDataAfterTs top) :=
    replayRecords_advances AllOf.nil
  have hclock : now ≤ (x.session.replayed cfg top n now gap).2 := hadvances.le
  have hts : (x.session.replayed cfg top n now gap).1.updateTimestamp = top ∨
      now < (x.session.replayed cfg top n now gap).1.updateTimestamp ∧
        (x.session.replayed cfg top n now gap).1.updateTimestamp ≤
          (x.session.replayed cfg top n now gap).2 := by
    cases hadvances with
    | still heq _ _ =>
      left
      rw [heq]
      exact h.restores.timestamp
    | moved hlt hle => exact .inr ⟨hlt, hle⟩
  have htop := h.top_le
  constructor
  · exact settled_restarted h.settled.labelled hfollows
  · exact logged_restarted h.logged.keyed hcovered
  · show (x.session.replayed cfg top n now gap).1.updateTimestamp ≤ _
    rcases hts with heq | ⟨_, hle⟩
    · rw [heq]
      exact (htop.trans (le_of_lt hnow)).trans hclock
    · exact hle
  · exact h.marked
  · exact h.newest
  · exact h.complete
  · exact h.restores.restarted _
  · intro name content hfind
    exact ((h.named name content hfind).trans (le_of_lt hnow)).trans hclock
  · show x.disk.dirs.find
        (x.session.replayed cfg top n now gap).1.updateTimestamp = none ∨
      (x.session.replayed cfg top n now gap).1.updateTimestamp ≤ top ∨ _
    rcases hts with heq | ⟨hlt, _⟩
    · exact .inr (.inl (le_of_eq heq))
    · left
      cases hfind : x.disk.dirs.find
          (x.session.replayed cfg top n now gap).1.updateTimestamp with
      | none => rfl
      | some content => exact absurd (h.named _ content hfind) (by omega)
  · trivial

/-!
# Steps
-/

/-- The condition on a step.  Writers keep apart and the clock is read after
the timestamps of every batch; the index is dumped when no writer has to hand
over records under a timestamp before the index's. -/
def KeepsLog (x : PersistCollection term value posting) :
    PersistStep term value -> Prop
  | .writer l => x.session.KeepsApart l ∧ x.session.OnTime l
  | .dump => Nanos x.indexTs ∧ x.session.NoneBehind
  | .restart now _ => x.session.AfterLog now
  | _ => True

theorem Recoverable.writerStep (h : x.Recoverable cfg top n)
    (hapart : x.session.KeepsApart l)
    (htime : x.session.OnTime l) (hstep : x.writerStep cfg l = some x') :
    x'.Recoverable cfg top n := by
  cases hread : reading l with
  | none =>
    simp only [PersistCollection.writerStep, hread] at hstep
    rcases Option.map_eq_some_iff.mp hstep with ⟨session, hs, heq⟩
    rw [← heq]
    apply h.writer hapart htime (moves_of_step hs) (le_refl _)
    intro now hnow
    rw [hread] at hnow
    cases hnow
  | some now =>
    simp only [PersistCollection.writerStep, hread] at hstep
    split at hstep
    case isTrue hlt =>
      rcases Option.map_eq_some_iff.mp hstep with ⟨session, hs, heq⟩
      rw [← heq]
      apply h.writer hapart htime (moves_of_step hs) (le_of_lt hlt)
      intro now' hnow
      rw [hread] at hnow
      cases hnow
      exact ⟨hlt, rfl⟩
    case isFalse => cases hstep

theorem Recoverable.step (h : x.Recoverable cfg top n)
    {l : PersistStep term value} (hlog : x.KeepsLog l)
    (hstep : x.step cfg l = some x') :
    exists top' n', x'.Recoverable cfg top' n' := by
  cases l with
  | writer l => exact ⟨top, n, h.writerStep hlog.1 hlog.2 hstep⟩
  | check =>
    simp only [PersistCollection.step] at hstep
    split at hstep
    case h_1 hphase =>
      rw [h.getNewestVersion] at hstep
      split at hstep
      case isTrue hlt =>
        cases hstep
        exact ⟨top, n, h.check hphase hlt⟩
      case isFalse =>
        cases hstep
        exact ⟨top, n, h⟩
    case h_2 => cases hstep
  | makeDir now =>
    simp only [PersistCollection.step] at hstep
    split at hstep
    case h_1 hphase =>
      split at hstep
      case isTrue hlt =>
        cases hstep
        exact ⟨top, n, h.makeDir hphase hlt⟩
      case isFalse => cases hstep
    case h_2 => cases hstep
  | dump =>
    simp only [PersistCollection.step] at hstep
    split at hstep
    case h_1 dir hphase =>
      cases hstep
      exact ⟨top, n, h.dump hphase hlog.1 hlog.2⟩
    case h_2 => cases hstep
  | move =>
    simp only [PersistCollection.step] at hstep
    split at hstep
    case h_1 dir version hphase =>
      have hold := h.persisting
      rw [hphase] at hold
      rcases hold with ⟨_, _, _, hfree, m, hfind, _⟩
      rw [hfind, hfree] at hstep
      cases hstep
      exact ⟨top, n, h.move hphase hfind⟩
    case h_2 => cases hstep
  | writeDone =>
    simp only [PersistCollection.step] at hstep
    split at hstep
    case h_1 version hphase =>
      cases hstep
      exact ⟨version, h.writeDone hphase⟩
    case h_2 => cases hstep
  | removePart name =>
    simp only [PersistCollection.step] at hstep
    split at hstep
    case h_1 version hphase =>
      split at hstep
      case isTrue => cases hstep
      case isFalse hkeeps =>
        split at hstep
        case isTrue hsome =>
          cases hstep
          have hne := h.ne_of_not_keeps hphase hkeeps
          refine ⟨top, n, h.clean hphase h.marked (List.Subset.refl _)
            (find_put_ne _ _ (Ne.symm hne)) ?_⟩
          intro other hnone
          apply (find_put_ne _ _ _).trans hnone
          intro heq
          rw [heq] at hnone
          rw [hnone] at hsome
          cases hsome
        case isFalse => cases hstep
    case h_2 => cases hstep
  | removeDir name =>
    simp only [PersistCollection.step] at hstep
    split at hstep
    case h_1 version hphase =>
      split at hstep
      case isTrue => cases hstep
      case isFalse hkeeps =>
        cases hstep
        have hne := h.ne_of_not_keeps hphase hkeeps
        refine ⟨top, n, h.clean hphase h.marked (List.Subset.refl _)
          (find_del_ne _ (Ne.symm hne)) ?_⟩
        intro other hnone
        show (x.disk.dirs.del name).find other = none
        rw [find_del]
        split
        case isTrue => rfl
        case isFalse => exact hnone
    case h_2 => cases hstep
  | removeMarker name =>
    simp only [PersistCollection.step] at hstep
    split at hstep
    case h_1 version hphase =>
      split at hstep
      case isTrue => cases hstep
      case isFalse hkeeps =>
        cases hstep
        have hne := h.ne_of_not_keeps hphase hkeeps
        refine ⟨top, n, h.clean hphase ?_ (filter_subset_self _) rfl
          fun _ hnone => hnone⟩
        exact mem_filter.mpr ⟨h.marked, decide_eq_true (Ne.symm hne)⟩
    case h_2 => cases hstep
  | cleaned =>
    simp only [PersistCollection.step] at hstep
    split at hstep
    case h_1 version hphase =>
      cases hstep
      refine ⟨top, n, h.maintain rfl h.complete (le_refl _) h.named ?_
        trivial⟩
      have hunused := h.unused_left hphase fun v hv => by cases hv
      rcases hunused with hnone | hle
      · exact .inl hnone
      · exact .inr (.inl hle)
    case h_2 => cases hstep
  | restart now gap =>
    simp only [PersistCollection.step] at hstep
    split at hstep
    case isTrue hlt =>
      rw [h.recover_eq now gap] at hstep
      cases hstep
      exact ⟨top, n, h.restart hlt hlog gap _⟩
    case isFalse => cases hstep

/-!
# Runs
-/

/-- There is a version on disk to recover from. -/
def Kept (cfg : IndexConfig value posting)
    (x : PersistCollection term value posting) : Prop :=
  exists top n, x.Recoverable cfg top n

theorem Kept.step (h : x.Kept cfg) {l : PersistStep term value}
    (hlog : x.KeepsLog l) (hstep : x.step cfg l = some x') : x'.Kept cfg := by
  rcases h with ⟨top, n, h⟩
  exact h.step hlog hstep

/-- An index is created over rows and records that are older than it. -/
structure CreatedOver (s : Store term value) (version clock : Nat) : Prop where
  labelled : s.Labelled
  later : version ≤ clock
  nanos : Nanos version ∧ Nanos clock
  keyed : Keyed s.delta
  older : forall k d, s.delta.find (decimal k) = some d -> k < version

theorem recoverable_start (cfg : IndexConfig value posting)
    {s : Store term value}
    (hs : CreatedOver s version clock) (writers : Nat) :
    (start cfg s version clock writers).Recoverable cfg
      (build cfg version clock s.getAllCandsData).updateTimestamp
      (build cfg version clock s.getAllCandsData) := by
  have hts : (build cfg version clock
        s.getAllCandsData).updateTimestamp = version ∨
      (build cfg version clock
        s.getAllCandsData).updateTimestamp = clock := by
    rw [build, upsertData]
    cases ((s.getAllCandsData.map initialDelta).isEmpty) with
    | true => exact .inl rfl
    | false => exact .inr rfl
  have hfollows := build_follows cfg hs.labelled version clock
  have hsession : (start cfg s version clock writers).session =
      (start cfg s version clock writers).session.restarted
        (build cfg version clock s.getAllCandsData) := by
    rw [restarted]
    simp only [start, map_replicate]
  have hnanos : Nanos (build cfg version clock
      s.getAllCandsData).updateTimestamp := by
    rcases hts with heq | heq
    · rw [heq]
      exact hs.nanos.1
    · rw [heq]
      exact hs.nanos.2
  have hversion : version ≤ (build cfg version clock
      s.getAllCandsData).updateTimestamp := by
    rcases hts with heq | heq
    · exact le_of_eq heq.symm
    · rw [heq]
      exact hs.later
  have hclock : (build cfg version clock
      s.getAllCandsData).updateTimestamp ≤ clock := by
    rcases hts with heq | heq
    · rw [heq]
      exact hs.later
    · exact le_of_eq heq
  constructor
  · rw [hsession]
    exact settled_restarted hs.labelled hfollows
  · rw [hsession]
    exact logged_restarted hs.keyed
      fun k d hfind => .inl ((hs.older k d hfind).trans_le hversion)
  · exact hclock
  · exact mem_cons_self
  · intro v hv
    exact le_of_eq (mem_singleton.mp hv)
  · exact find_put_self ..
  · refine ⟨rfl, hnanos, ?_, ?_⟩
    · rw [hsession]
      exact fun i p base hi => by cases idle_restarted hi
    intro label
    have hnone : suffixAt s.delta (build cfg version clock
        s.getAllCandsData).updateTimestamp label = [] := by
      rw [eq_nil_iff_forall_not_mem]
      intro d hd
      rcases find_of_mem_suffixAt hs.keyed hnanos hd with
        ⟨_, k, hle, hfind⟩
      have hlt := hs.older k d hfind
      omega
    show (replayAll cfg _ (suffixAt s.delta _ label)).FollowsAt cfg s label
    rw [hnone]
    exact hfollows label
  · intro name content hfind
    change ((∅ : Assoc Nat _).put _ _).find name = some content at hfind
    rw [find_put] at hfind
    split at hfind
    case isTrue heq =>
      rw [heq]
      exact hclock
    case isFalse => cases hfind
  · exact .inr (.inl (le_refl _))
  · trivial

/-- After a crash at any point of a run, recovery finds a complete snapshot and
leaves an index that follows the store. -/
theorem recovery_follows_store (cfg : IndexConfig value posting)
    {s : Store term value} {version clock : Nat}
    (hs : CreatedOver s version clock) (writers : Nat)
    (steps : List (PersistStep term value))
    (hlog : Interleaving.Meets (step cfg) KeepsLog
      (start cfg s version clock writers) steps)
    (hrun : run (step cfg)
      (start cfg s version clock writers) steps = some x)
    (now : Nat) (gap : Nat -> Nat) :
    exists r, recover cfg x.disk x.session.store now gap = some r ∧
      r.1.Follows cfg x.session.store := by
  have hkept : x.Kept cfg := run_inv (step cfg)
    (fun hx hok hstep => Kept.step hx hok hstep)
    ⟨_, _, recoverable_start cfg hs writers⟩ hlog hrun
  rcases hkept with ⟨top, n, hx⟩
  exact ⟨_, hx.recover_eq now gap, hx.restores.replayed_follows now gap⟩

/-- A reading of the clock. -/
def tick (k : Nat) : Nat :=
  1000000000000000000 + k

/-- A writer that is cut off before it hands its batch over. -/
def cutOffSteps : List (PersistStep Unit Nat) :=
  [.enter 0 (.write [Shared.tagRow 1 ['x']] 0), .read 0, .stamp 0 (tick 1),
    .commit 0 (tick 2)].map .writer

theorem createdOver_empty :
    CreatedOver (Store.empty : Store Unit Nat) (tick 0) (tick 0) := by
  constructor
  · nofun
  · exact le_refl _
  · exact ⟨⟨by decide, by decide⟩, by decide, by decide⟩
  · nofun
  · nofun

theorem recovery_follows_store_cut_off :
    exists x, run (step tagConfig.index)
        (start tagConfig.index Store.empty (tick 0) (tick 0) 1) cutOffSteps =
          some x ∧
      exists r, recover tagConfig.index x.disk x.session.store (tick 3)
          (fun _ => 0) = some r ∧
        r.1.Follows tagConfig.index x.session.store := by
  refine ⟨_, rfl, ?_⟩
  apply recovery_follows_store tagConfig.index createdOver_empty 1 cutOffSteps
  · apply meets_cons (step tagConfig.index)
      ⟨List.nodup_singleton (1 : Label), trivial⟩ rfl
    refine meets_cons (step tagConfig.index) ⟨?_, trivial⟩ rfl ?_
    · intro p _ j q hj hq
      cases j with
      | zero => exact absurd rfl hj
      | succ j => cases hq
    refine meets_cons (step tagConfig.index) ⟨trivial, ?_⟩ rfl ?_
    · refine ⟨?_, ?_, ?_⟩
      · nofun
      · intro i p base hi
        cases i with
        | zero => cases hi
        | succ i => cases hi
      · intro p hp k hle hlt
        cases hp
        change k < tick 1 + 1 at hlt
        rw [show k = tick 1 by omega]
        exact ⟨by decide, by decide⟩
    · exact meets_cons (step tagConfig.index)
        ⟨trivial, trivial⟩ rfl trivial
  · rfl

/-- Two writers of different keys, and a snapshot that is taken when the first
has its timestamp and not yet its commit. -/
def lateCommitSteps : List (PersistStep Unit Nat) :=
  [.writer (.enter 0 (.write [Shared.tagRow 1 ['x']] 0)),
    .writer (.enter 1 (.write [Shared.tagRow 2 ['y']] 0)),
    .writer (.read 0), .writer (.read 1), .writer (.stamp 0 (tick 1)),
    .writer (.stamp 1 (tick 2)), .writer (.commit 1 (tick 3)),
    .writer (.apply 1 (tick 4)), .check, .makeDir (tick 5), .dump, .move,
    .writeDone, .cleaned, .writer (.commit 0 (tick 6))]

/-- The snapshot is later than the record of the first writer and does not
have its row. -/
theorem late_commit_lost :
    exists x, run (step tagConfig.index)
        (start tagConfig.index Store.empty (tick 0) (tick 0) 2)
        lateCommitSteps = some x ∧
      exists r, recover tagConfig.index x.disk x.session.store (tick 7)
          (fun _ => 0) = some r ∧
        ¬r.1.Follows tagConfig.index x.session.store := by
  refine ⟨_, rfl, _, rfl, ?_⟩
  intro h
  have hpostings := (h 1).2
  revert hpostings
  decide +kernel

end PersistCollection
end Collection
end OpenViking
