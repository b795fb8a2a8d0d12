import Mathlib.Data.List.Induction
import OpenViking.Semantic.Coalescing

/-!
# No coalesced refresh is lost

The newest message of each key is never dropped, so it stands in for every message
of its key that was.
-/

namespace OpenViking
namespace Semantic
namespace Coalescing

open Function Interleaving World List SemanticQueue

/-!
# The newest message of a key
-/

def Newest (entries : List Entry) (key : Key) (index : Nat) : Prop :=
  (exists entry, entries[index]? = some entry ∧ entry.msg.key = some key) ∧
    forall later entry, entries[later]? = some entry -> entry.msg.key = some key ->
      later ≤ index

section Newest

variable {entries : List Entry} {entry : Entry} {key : Key} {index : Nat}

theorem getElem?_append_entry {e : Entry} (h : (entries ++ [entry])[index]? = some e) :
    (index = entries.length ∧ e = entry) ∨ entries[index]? = some e := by
  by_cases hlt : index < entries.length
  · rw [List.getElem?_append_left hlt] at h
    exact .inr h
  · rw [List.getElem?_append_right (Nat.le_of_not_lt hlt)] at h
    rcases List.getElem?_eq_some_iff.mp h with ⟨hin, hget⟩
    rw [List.length_singleton] at hin
    rw [List.getElem_singleton] at hget
    exact .inl ⟨by omega, hget.symm⟩

theorem getElem?_append_old {e : Entry} (h : entries[index]? = some e) :
    (entries ++ [entry])[index]? = some e := by
  rw [List.getElem?_append_left (List.getElem?_eq_some_iff.mp h).1]
  exact h

theorem newest_append (h : Newest (entries ++ [entry]) key index) :
    (entry.msg.key = some key ∧ index = entries.length) ∨
      (entry.msg.key ≠ some key ∧ Newest entries key index) := by
  rcases h with ⟨⟨e, hget, hkey⟩, hlater⟩
  by_cases hnew : entry.msg.key = some key
  · have hle := hlater entries.length entry List.getElem?_concat_length hnew
    rcases getElem?_append_entry hget with ⟨heq, _⟩ | hold
    · exact .inl ⟨hnew, heq⟩
    · have hlt := (List.getElem?_eq_some_iff.mp hold).1
      omega
  · refine .inr ⟨hnew, ?_, fun later e' h' hk =>
      hlater later e' (getElem?_append_old h') hk⟩
    rcases getElem?_append_entry hget with ⟨_, heq⟩ | hold
    · rw [heq] at hkey
      exact absurd hkey hnew
    · exact ⟨e, hold, hkey⟩

theorem newest_append_self (h : entry.msg.key = some key) :
    Newest (entries ++ [entry]) key entries.length := by
  refine ⟨⟨entry, List.getElem?_concat_length, h⟩, ?_⟩
  intro later e hget _
  have hlt := (List.getElem?_eq_some_iff.mp hget).1
  rw [List.length_append, List.length_singleton] at hlt
  omega

theorem newest_append_other (h : entry.msg.key ≠ some key)
    (hnewest : Newest entries key index) :
    Newest (entries ++ [entry]) key index := by
  rcases hnewest with ⟨⟨e, hget, hkey⟩, hlater⟩
  refine ⟨⟨e, getElem?_append_old hget, hkey⟩, ?_⟩
  intro later e' hget' hkey'
  rcases getElem?_append_entry hget' with ⟨_, heq⟩ | hold
  · rw [heq] at hkey'
    exact absurd hkey' h
  · exact hlater later e' hold hkey'

theorem newest_exists {e : Entry} (hget : entries[index]? = some e)
    (hkey : e.msg.key = some key) : exists newest, Newest entries key newest := by
  induction entries using reverseRecOn with
  | nil => cases hget
  | append_singleton front last ih =>
    by_cases hlast : last.msg.key = some key
    · exact ⟨front.length, newest_append_self hlast⟩
    · rcases getElem?_append_entry hget with ⟨_, heq⟩ | hold
      · rw [heq] at hkey
        exact absurd hkey hlast
      · rcases ih hold with ⟨newest, hnewest⟩
        exact ⟨newest, newest_append_other hlast hnewest⟩

theorem Newest.lt (h : Newest entries key index) : index < entries.length := by
  rcases h.1 with ⟨e, hget, _⟩
  exact (List.getElem?_eq_some_iff.mp hget).1

end Newest

/-!
# The invariant
-/

structure Sound (world : World) : Prop where
  newest : forall key index, Newest world.queue.entries key index ->
    world.Covers key index
  version : forall coalesceKey index entry,
    Newest world.queue.entries (.coalesce coalesceKey) index ->
    world.queue.entries[index]? = some entry ->
      world.queue.version coalesceKey ≤ entry.msg.coalesceVersion
  stamped : forall key stamp, world.queue.stamps.find key = some stamp ->
    exists index entry, Newest world.queue.entries (.memory key) index ∧
      world.queue.entries[index]? = some entry ∧
      entry.epoch = world.queue.epoch ∧ entry.enqueuedAt = stamp
  bounded : forall drop, drop ∈ world.drops ->
    drop.after ≤ world.queue.entries.length
  dropped : forall drop, drop ∈ world.drops ->
    exists index, Newest world.queue.entries drop.key index ∧
      (drop.after ≤ index ∨ index ∈ drop.waiting)
  current : forall index current, world.current index = some current ->
    exists entry, world.queue.entries[index]? = some entry ∧
      (current = entry.msg ∨ current.coalesceKey = "")
  requeued : forall index, world.status index ≠ .swallowed

theorem Sound.start (clock : Rat) : Sound (start clock) where
  newest := by
    intro key index h
    cases h.lt
  version := by
    intro coalesceKey index entry h
    cases h.lt
  stamped := nofun
  bounded := nofun
  dropped := nofun
  current := by
    intro index current h
    cases h
  requeued := by
    intro index h
    cases h

section Steps

variable {world : World} {index : Nat}

theorem Sound.nothingLost (h : Sound world) : world.NothingLost where
  covered := by
    intro drop hdrop
    rcases h.dropped drop hdrop with ⟨index, hnewest, hafter⟩
    exact ⟨index, h.newest drop.key index hnewest, hafter⟩
  requeued := h.requeued

variable {current : SemanticMsg}

theorem current_eq_some (h : world.current index = some current) :
    world.status index = .delivering current ∧
      index < world.queue.entries.length := by
  unfold World.current at h
  split at h
  · rename_i c hstatus
    split at h
    · rename_i hlt
      cases h
      exact ⟨hstatus, hlt⟩
    · cases h
  · cases h

theorem Sound.current_of_newest (h : Sound world) {key : Key}
    (hcurrent : world.current index = some current)
    (hnewest : Newest world.queue.entries key index) :
    world.queue.entries[index]?.map Entry.msg = some current ∧
      current.key = some key := by
  rcases h.newest key index hnewest with ⟨entry, hget, hkey, hstatus⟩
  rw [(current_eq_some hcurrent).1] at hstatus
  rcases hstatus with hpending | hhandled | hdelivering
  · cases hpending
  · cases hhandled
  · cases hdelivering
    rw [hget]
    exact ⟨rfl, hkey⟩

/-- A status is set soundly when it does not take the newest message of a key away. -/
theorem Sound.setStatus (h : Sound world) {status : Status}
    (hnewest : forall key, Newest world.queue.entries key index ->
      status = .pending ∨ status = .handled ∨
        forall entry, world.queue.entries[index]? = some entry ->
          status = .delivering entry.msg)
    (hcurrent : forall current, status = .delivering current ->
      exists entry, world.queue.entries[index]? = some entry ∧
        (current = entry.msg ∨ current.coalesceKey = ""))
    (hswallowed : status ≠ .swallowed) :
    Sound (world.setStatus index status) :=
  { h with
    newest := by
      intro key other hother
      rcases h.newest key other hother with ⟨entry, hget, hkey, hstatus⟩
      refine ⟨entry, hget, hkey, ?_⟩
      unfold World.setStatus
      dsimp only
      by_cases heq : other = index
      · subst heq
        rw [update_self]
        rcases hnewest key hother with hpending | hhandled | hdelivering
        · exact .inl hpending
        · exact .inr (.inl hhandled)
        · exact .inr (.inr (hdelivering entry hget))
      · rw [update_of_ne heq]
        exact hstatus
    current := by
      intro other current hother
      rcases current_eq_some hother with ⟨hstatus, hlt⟩
      unfold World.setStatus at hstatus
      dsimp only at hstatus
      by_cases heq : other = index
      · subst heq
        rw [update_self] at hstatus
        exact hcurrent current hstatus
      · rw [update_of_ne heq] at hstatus
        apply h.current other current
        unfold World.current
        rw [hstatus]
        dsimp only
        exact if_pos hlt
    requeued := by
      intro other
      unfold World.setStatus
      dsimp only
      by_cases heq : other = index
      · subst heq
        rw [update_self]
        exact hswallowed
      · rw [update_of_ne heq]
        exact h.requeued other }

theorem Sound.drop (h : Sound world) {drop : Drop}
    (hbounded : drop.after ≤ world.queue.entries.length)
    (hdropped : exists index, Newest world.queue.entries drop.key index ∧
      (drop.after ≤ index ∨ index ∈ drop.waiting)) :
    Sound { world with drops := drop :: world.drops } :=
  { h with
    bounded := by
      intro other hother
      rcases mem_cons.mp hother with heq | hold
      · rw [heq]
        exact hbounded
      · exact h.bounded other hold
    dropped := by
      intro other hother
      rcases mem_cons.mp hother with heq | hold
      · rw [heq]
        exact hdropped
      · exact h.dropped other hold }

/-!
# Stale messages
-/

variable {entry : Entry}

theorem Sound.stale_not_newest (h : Sound world)
    (hget : world.queue.entries[index]? = some entry)
    (hstale : world.queue.isStale entry.msg = true) (key : Key) :
    ¬ Newest world.queue.entries key index := by
  intro hnewest
  rcases isStale_iff hstale with ⟨hkey, hlt⟩
  rcases hnewest.1 with ⟨entry', hget', hkey'⟩
  rw [hget] at hget'
  cases hget'
  rw [hkey] at hkey'
  cases hkey'
  have hversion := h.version _ index entry hnewest hget
  omega

theorem Sound.supersede (h : Sound world) {status : Status}
    (hget : world.queue.entries[index]? = some entry)
    (hstale : world.queue.isStale entry.msg = true)
    (hcurrent : forall current, status = .delivering current ->
      current.coalesceKey = "")
    (hswallowed : status ≠ .swallowed) :
    Sound (world.supersede index entry.msg.coalesceKey status) := by
  have hset : Sound (world.setStatus index status) := by
    apply h.setStatus
    · intro key hnewest
      exact absurd hnewest (h.stale_not_newest hget hstale key)
    · intro current heq
      exact ⟨entry, hget, .inr (hcurrent current heq)⟩
    · exact hswallowed
  have hkey := (isStale_iff hstale).1
  apply hset.drop
  · exact (List.getElem?_eq_some_iff.mp hget).1
  rcases newest_exists hget hkey with ⟨newest, hnewest⟩
  refine ⟨newest, hnewest, .inl ?_⟩
  have hle := hnewest.2 index entry hget hkey
  have hne : newest ≠ index := by
    intro heq
    rw [heq] at hnewest
    exact h.stale_not_newest hget hstale _ hnewest
  show index + 1 ≤ newest
  omega

theorem Sound.deliver (h : Sound world)
    (hget : world.queue.entries[index]? = some entry) :
    Sound (world.deliver index entry.msg) := by
  unfold World.deliver
  cases hstale : world.queue.isStale entry.msg with
  | false =>
    rw [if_neg Bool.false_ne_true]
    apply h.setStatus
    · intro key hnewest
      refine .inr (.inr ?_)
      intro entry' hget'
      rw [hget] at hget'
      cases hget'
      rfl
    · intro current heq
      cases heq
      exact ⟨entry, hget, .inl rfl⟩
    · intro heq
      cases heq
  | true =>
    rw [if_pos rfl]
    have hskip : Sound
        (world.supersede index entry.msg.coalesceKey .superseded) := by
      apply h.supersede hget hstale
      · intro current heq
        cases heq
      · intro heq
        cases heq
    cases entry.msg.liveFileChanges with
    | none => exact hskip
    | some live =>
      dsimp only
      split
      · apply h.supersede hget hstale
        · intro current heq
          cases heq
          rfl
        · intro heq
          cases heq
      · exact hskip

theorem Sound.closed (h : Sound world)
    (hcurrent : world.current index = some current) :
    Sound (world.closed index current) := by
  unfold World.closed
  apply h.setStatus
  · intro key hnewest
    rw [if_pos (h.current_of_newest hcurrent hnewest).1]
    exact .inr (.inl rfl)
  · intro c heq
    split at heq
    · cases heq
    · cases heq
  · split
    · intro heq
      cases heq
    · intro heq
      cases heq

/-!
# Enqueued and re-enqueued messages
-/

variable {now : Rat}

theorem mem_waiting {key : Key}
    (hget : world.queue.entries[index]? = some entry)
    (hkey : entry.msg.key = some key) (hepoch : entry.epoch = world.queue.epoch)
    (hnow : now - entry.enqueuedAt < Stamps.dedupeWindow)
    (hstatus : world.status index = .pending) :
    index ∈ world.waiting now key := by
  unfold waiting
  rw [List.mem_filter, List.mem_range]
  refine ⟨(List.getElem?_eq_some_iff.mp hget).1, ?_⟩
  rw [hget]
  dsimp only
  rw [hkey, hepoch, hstatus, decide_eq_true hnow]
  simp

variable {msg : SemanticMsg}

theorem Sound.duplicate_waits (h : Sound world)
    (hunhurried : msg.dedupes = true -> world.Unhurried msg now)
    (hdup : world.queue.duplicate now msg = true) :
    exists index,
      Newest world.queue.entries (.memory msg.memoryParentSemanticKey) index ∧
        index ∈ world.waiting now (.memory msg.memoryParentSemanticKey) := by
  unfold duplicate at hdup
  rw [Bool.and_eq_true, decide_eq_true_eq] at hdup
  have hwaits := hunhurried hdup.1
  have hlate := hdup.2
  unfold lastStamp at hlate
  cases hfind : world.queue.stamps.find msg.memoryParentSemanticKey with
  | none =>
    rw [hfind, Option.getD_none, sub_zero] at hlate
    exact absurd hlate (not_lt.mpr (hwaits.1 hfind))
  | some stamp =>
    rw [hfind, Option.getD_some] at hlate
    rcases h.stamped _ stamp hfind with ⟨index, entry, hnewest, hget, hepoch, hat⟩
    refine ⟨index, hnewest, ?_⟩
    rcases hnewest.1 with ⟨entry', hget', hkey⟩
    rw [hget] at hget'
    cases hget'
    apply mem_waiting hget hkey hepoch
    · rw [hat]
      exact hlate
    · apply hwaits.2 stamp hfind hlate index entry hget
      · rw [hkey, SemanticMsg.key_of_dedupes hdup.1]
      · exact hepoch
      · exact hat

theorem Sound.withClock (h : Sound world) (now : Rat) :
    Sound { world with clock := now } where
  newest := h.newest
  version := h.version
  stamped := h.stamped
  bounded := h.bounded
  dropped := h.dropped
  current := h.current
  requeued := h.requeued

/-- A message that is written becomes the newest one of its key. -/
theorem Sound.written (h : Sound world) {stamps : Stamps}
    {versions : Assoc String Nat} (now : Rat)
    (hepoch : entry.epoch = world.queue.epoch) (hnow : entry.enqueuedAt = now)
    (hstamps : forall key t, stamps.find key = some t ->
      (entry.msg.key = some (.memory key) ∧ t = now) ∨
        (entry.msg.key ≠ some (.memory key) ∧
          world.queue.stamps.find key = some t))
    (hversions : forall key, (versions.find key).getD 0 =
      if entry.msg.key = some (.coalesce key) then entry.msg.coalesceVersion
      else world.queue.version key) :
    Sound
      { queue :=
          { world.queue with
            stamps := stamps
            versions := versions
            entries := world.queue.entries ++ [entry] }
        status := update world.status world.queue.entries.length .pending
        clock := now
        drops := world.drops } where
  newest := by
    intro key index hnewest
    rcases newest_append hnewest with ⟨hkey, heq⟩ | ⟨_, hold⟩
    · refine ⟨entry, ?_, hkey, .inl ?_⟩
      · rw [heq]
        exact getElem?_concat_length
      · rw [heq]
        exact update_self _ _ _
    · rcases h.newest key index hold with ⟨e, hget, hkey, hstatus⟩
      refine ⟨e, getElem?_append_old hget, hkey, ?_⟩
      have hne : index ≠ world.queue.entries.length := Nat.ne_of_lt hold.lt
      dsimp only
      rw [update_of_ne hne]
      exact hstatus
  version := by
    intro coalesceKey index e hnewest hget
    show (versions.find coalesceKey).getD 0 ≤ _
    rw [hversions]
    rcases newest_append hnewest with ⟨hkey, heq⟩ | ⟨hkey, hold⟩
    · rw [if_pos hkey]
      rw [heq, getElem?_concat_length] at hget
      cases hget
      exact le_refl _
    · rw [if_neg hkey]
      rcases getElem?_append_entry hget with ⟨heq, _⟩ | hget'
      · have hlt := hold.lt
        omega
      · exact h.version coalesceKey index e hold hget'
  stamped := by
    intro key stamp hfind
    rcases hstamps key stamp hfind with ⟨hkey, heq⟩ | ⟨hkey, hold⟩
    · exact ⟨world.queue.entries.length, entry, newest_append_self hkey,
        getElem?_concat_length, hepoch, hnow.trans heq.symm⟩
    · rcases h.stamped key stamp hold with ⟨index, e, hnewest, hget, he, hat⟩
      exact ⟨index, e, newest_append_other hkey hnewest, getElem?_append_old hget, he,
        hat⟩
  bounded := by
    intro drop hdrop
    have hle := h.bounded drop hdrop
    show drop.after ≤ (world.queue.entries ++ [entry]).length
    rw [length_append]
    omega
  dropped := by
    intro drop hdrop
    by_cases hkey : entry.msg.key = some drop.key
    · exact ⟨world.queue.entries.length, newest_append_self hkey,
        .inl (h.bounded drop hdrop)⟩
    · rcases h.dropped drop hdrop with ⟨index, hnewest, hafter⟩
      exact ⟨index, newest_append_other hkey hnewest, hafter⟩
  current := by
    intro index current hcurrent
    rcases current_eq_some hcurrent with ⟨hstatus, hlt⟩
    dsimp only at hstatus hlt
    rw [length_append, length_singleton] at hlt
    by_cases heq : index = world.queue.entries.length
    · rw [heq, update_self] at hstatus
      cases hstatus
    · rw [update_of_ne heq] at hstatus
      have hold : world.current index = some current := by
        unfold World.current
        rw [hstatus]
        exact if_pos (by omega)
      rcases h.current index current hold with ⟨e, hget, hmsg⟩
      exact ⟨e, getElem?_append_old hget, hmsg⟩
  requeued := by
    intro index
    dsimp only
    by_cases heq : index = world.queue.entries.length
    · rw [heq, update_self]
      intro h'
      cases h'
    · rw [update_of_ne heq]
      exact h.requeued index

/-- What a fitting enqueue does to a sound world. -/
theorem Sound.submit_cases (h : Sound world)
    {lands : Bool} (hlands : Lands msg lands)
    (hunhurried : msg.dedupes = true -> world.Unhurried msg now) :
    Sound (world.submit msg now lands).1 ∧
      (((world.submit msg now lands).2 = .deduplicated ∧
          world.queue.duplicate now msg = true) ∨
        ((world.submit msg now lands).2 = .queued ∧
          exists entry, entry.msg.key = msg.key ∧
            (world.submit msg now lands).1.queue.entries =
              world.queue.entries ++ [entry]) ∨
        ((world.submit msg now lands).2 = .raised ∧ msg.key = none ∧
          (world.submit msg now lands).1 = { world with clock := now })) := by
  unfold submit
  rcases world.queue.enqueue_cases hlands with
    ⟨hdup, heq⟩ | ⟨_, stamps, versions, heq, hstamps, hversions⟩ | ⟨_, hkey, heq⟩
  · rw [heq]
    refine ⟨?_, .inl ⟨rfl, hdup⟩⟩
    rcases h.duplicate_waits hunhurried hdup with ⟨index, hnewest, hwaiting⟩
    exact (h.withClock now).drop (le_refl _) ⟨index, hnewest, .inr hwaiting⟩
  · rw [heq]
    refine ⟨?_, .inr (.inl ⟨rfl, _, world.queue.versioned_key msg, rfl⟩)⟩
    apply h.written now rfl rfl
    · intro key t hfind
      rw [world.queue.versioned_key msg]
      exact hstamps key t hfind
    · intro key
      rw [world.queue.versioned_key msg]
      exact hversions key
  · rw [heq]
    exact ⟨h.withClock now, .inr (.inr ⟨rfl, hkey, rfl⟩)⟩

theorem late_not_duplicate (h : world.Late msg now) :
    world.queue.duplicate now msg = false := by
  cases hdup : world.queue.duplicate now msg with
  | false => rfl
  | true =>
    unfold duplicate at hdup
    rw [Bool.and_eq_true, decide_eq_true_eq] at hdup
    exact absurd hdup.2 (not_lt.mpr (h hdup.1))

theorem late_unhurried (h : world.Late msg now)
    (hded : msg.dedupes = true) : world.Unhurried msg now := by
  have hlate := h hded
  unfold lastStamp at hlate
  constructor
  · intro hfind
    rw [hfind, Option.getD_none, sub_zero] at hlate
    exact hlate
  · intro stamp hfind hwithin
    rw [hfind, Option.getD_some] at hlate
    exact absurd hwithin (not_lt.mpr hlate)

theorem Sound.requeue (h : Sound world)
    {lands : Bool} (hcurrent : world.current index = some current)
    (hlands : Lands current lands) (hlate : world.Late current now) :
    Sound (world.requeueAfterError index current now lands) := by
  unfold requeueAfterError
  rcases h.submit_cases hlands (late_unhurried hlate) with
    ⟨hsound, ⟨_, hdup⟩ | ⟨hanswer, entry, hkey, hentries⟩ | ⟨hanswer, hkey, hsame⟩⟩
  · rw [late_not_duplicate hlate] at hdup
    cases hdup
  · rw [hanswer]
    apply hsound.setStatus
    · intro key hnewest
      rw [hentries] at hnewest
      rcases newest_append hnewest with ⟨_, heq⟩ | ⟨hne, hold⟩
      · have hlt := (current_eq_some hcurrent).2
        omega
      · have hcur := (h.current_of_newest hcurrent hold).2
        rw [hkey] at hne
        exact absurd hcur hne
    · intro current heq
      cases heq
    · intro heq
      cases heq
  · rw [hanswer, hsame]
    apply (h.withClock now).setStatus
    · intro key hnewest
      have hcur := (h.current_of_newest hcurrent hnewest).2
      rw [hkey] at hcur
      cases hcur
    · intro current heq
      cases heq
    · intro heq
      cases heq

theorem Sound.restarted (h : Sound world) (now : Rat) (unacked : List Nat) :
    Sound (world.restarted now unacked) :=
  { h with
    newest := by
      intro key index hnewest
      rcases h.newest key index hnewest with ⟨entry, hget, hkey, hstatus⟩
      refine ⟨entry, hget, hkey, ?_⟩
      unfold World.restarted
      dsimp only
      rcases hstatus with hpending | hhandled | hdelivering
      · rw [hpending]
        dsimp only
        split
        · exact .inl rfl
        · exact .inl rfl
      · rw [hhandled]
        dsimp only
        split
        · exact .inl rfl
        · exact .inr (.inl rfl)
      · rw [hdelivering]
        exact .inl rfl
    version := by
      intro coalesceKey index entry _ _
      exact Nat.zero_le _
    stamped := nofun
    current := by
      intro index current hcurrent
      have hstatus := (current_eq_some hcurrent).1
      unfold World.restarted at hstatus
      dsimp only at hstatus
      cases hold : world.status index with
      | delivering c =>
        rw [hold] at hstatus
        cases hstatus
      | _ =>
        rw [hold] at hstatus
        dsimp only at hstatus
        split at hstatus
        · cases hstatus
        · cases hstatus
    requeued := by
      intro index
      have hnot := h.requeued index
      unfold World.restarted
      dsimp only
      cases hold : world.status index with
      | swallowed => exact absurd hold hnot
      | delivering c =>
        intro heq
        cases heq
      | _ =>
        dsimp only
        split
        · intro heq
          cases heq
        · intro heq
          cases heq }

theorem Sound.breakerOpen (h : Sound world) {world' : World} {now retryNow : Rat}
    {lands retryLands : Bool}
    (hcurrent : world.current index = some current)
    (hlands : Lands current lands) (hlate : world.Late current now)
    (hstep : step world (.breakerOpen index now lands retryNow retryLands) =
      some world') : Sound world' := by
  have hrequeue := h.requeue hcurrent hlands hlate
  unfold requeueAfterError at hrequeue
  unfold step at hstep
  dsimp only at hstep
  rw [hcurrent] at hstep
  dsimp only at hstep
  split at hstep
  · rcases h.submit_cases hlands (late_unhurried hlate) with
      ⟨_, ⟨hanswer, _⟩ | ⟨hanswer, _⟩ | ⟨hanswer, hkey, hsame⟩⟩
    · rw [← Prod.eta (world.submit current now lands), hanswer] at hstep
      cases hstep
      rw [hanswer] at hrequeue
      exact hrequeue
    · rw [← Prod.eta (world.submit current now lands), hanswer] at hstep
      cases hstep
      rw [hanswer] at hrequeue
      exact hrequeue
    · rw [← Prod.eta (world.submit current now lands), hanswer, hsame] at hstep
      dsimp only at hstep
      split at hstep
      · cases hstep
        apply (h.withClock now).requeue hcurrent
        · intro hsome
          exact absurd hkey hsome
        · intro hded
          rw [SemanticMsg.key_of_dedupes hded] at hkey
          cases hkey
      · cases hstep
  · cases hstep

theorem Sound.step {world' : World} {label : Label} (h : Sound world)
    (hfits : Fits world label) (hstep : step world label = some world') :
    Sound world' := by
  cases label with
  | enqueue msg now lands =>
    unfold Coalescing.step at hstep
    dsimp only at hstep
    split at hstep
    · cases hstep
      exact (h.submit_cases hfits.1 hfits.2).1
    · cases hstep
  | deliver index =>
    simp only [Coalescing.step] at hstep
    split at hstep
    case h_1 => cases hstep
    case h_2 entry hget =>
      split at hstep
      case isTrue =>
        cases hstep
        exact h.deliver hget
      case isFalse => cases hstep
  | breakerOpen index now lands retryNow retryLands =>
    cases hcurrent : world.current index with
    | none =>
      simp only [Coalescing.step, hcurrent] at hstep
      cases hstep
    | some current =>
      have hok := hfits current hcurrent
      exact h.breakerOpen hcurrent hok.1 hok.2 hstep
  | transientError index now lands =>
    simp only [Coalescing.step] at hstep
    split at hstep
    case h_1 => cases hstep
    case h_2 current hcurrent =>
      have hok := hfits current hcurrent
      split at hstep
      case isTrue =>
        cases hstep
        exact h.requeue hcurrent hok.1 hok.2
      case isFalse => cases hstep
  | permanentError index =>
    simp only [Coalescing.step] at hstep
    split at hstep
    case h_1 => cases hstep
    case h_2 current hcurrent =>
      cases hstep
      exact h.closed hcurrent
  | finish index writes =>
    simp only [Coalescing.step] at hstep
    split at hstep
    case h_1 => cases hstep
    case h_2 current hcurrent =>
      split at hstep
      case isTrue hstale =>
        cases hstep
        rcases h.current index current hcurrent with ⟨entry, hget, hsame | hempty⟩
        · rw [hsame] at hstale ⊢
          apply h.supersede hget hstale.2
          · intro current heq
            cases heq
          · intro heq
            cases heq
        · have hkey := (isStale_iff hstale.2).1
          exact absurd hempty (SemanticMsg.coalesceKey_of_key hkey).2
      case isFalse =>
        cases hstep
        exact h.closed hcurrent
  | restart now unacked =>
    cases hstep
    exact h.restarted now unacked

end Steps

/-- When durable writes of messages with a key land and memory messages keep clear of
each other's window, no coalesced refresh is lost in any run. -/
theorem no_refresh_lost {clock : Rat} {labels : List Label} {world : World}
    (hfits : Interleaving.Meets step Fits (start clock) labels)
    (hrun : run step (start clock) labels = some world) :
    world.NothingLost :=
  (run_inv step Sound.step (Sound.start clock) hfits hrun).nothingLost

/-!
# A retry that is taken for a duplicate
-/

def entitiesMsg : SemanticMsg :=
  { uri := "viking://user/default/memories/entities"
    contextType := ContextType.memory
    accountId := "acc"
    userId := "u1"
    peerId := "p1"
    coalesceKey := ""
    coalesceVersion := 0
    changes := none
    generationTrigger := "semantic_refresh"
    aggregateDirectory := true }

/-- The message is accepted, its handler fails after ten seconds, and the retry is
answered as a duplicate of the message itself. -/
def hurriedRetry : List Label :=
  [.enqueue entitiesMsg 100 true, .deliver 0,
    .transientError 0 110 true]

/-- A second message comes while the first is waiting, and the first is retried after
its window. -/
def patientRetry : List Label :=
  [.enqueue entitiesMsg 100 true, .enqueue entitiesMsg 120 true,
    .deliver 0, .transientError 0 150 true, .deliver 1,
    .finish 1 true]

theorem hurried_retry_swallowed :
    ¬ forall (clock : Rat) (labels : List Label) (world : World),
        run step (start clock) labels = some world ->
          world.NothingLost := by
  intro h
  have hview : (run step (start 0) hurriedRetry).map
      (fun world =>
        (world.status 0, world.queue.entries.length, world.drops.map Drop.after)) =
        some (.swallowed, 1, [1]) := by
    decide +kernel
  rcases Option.map_eq_some_iff.mp hview with ⟨world, hrun, hview⟩
  simp only [Prod.mk.injEq] at hview
  rcases hview with ⟨hstatus, hlength, hdrops⟩
  have hdrop : exists drop, drop ∈ world.drops := by
    cases hlist : world.drops with
    | nil =>
      rw [hlist] at hdrops
      cases hdrops
    | cons drop rest => exact ⟨drop, List.mem_cons_self⟩
  rcases hdrop with ⟨drop, hdrop⟩
  rcases (h 0 hurriedRetry world hrun).covered drop hdrop with
    ⟨index, ⟨entry, hget, _, hcovers⟩, _⟩
  have hlt := (List.getElem?_eq_some_iff.mp hget).1
  have hzero : index = 0 := by omega
  rw [hzero, hstatus] at hcovers
  rcases hcovers with hpending | hhandled | hdelivering
  · cases hpending
  · cases hhandled
  · cases hdelivering

theorem no_refresh_lost_patient :
    exists world,
      run step (start 0) patientRetry = some world ∧
        world.NothingLost := by
  have hview : ((run step (start 0) patientRetry).map
      fun world => world.queue.entries.length) = some 2 := by
    decide +kernel
  rcases Option.map_eq_some_iff.mp hview with ⟨world, hrun, _⟩
  have hfits : Interleaving.Meets step Fits (start 0) patientRetry := by
    decide +kernel
  exact ⟨world, hrun, no_refresh_lost hfits hrun⟩

end Coalescing
end Semantic
end OpenViking
