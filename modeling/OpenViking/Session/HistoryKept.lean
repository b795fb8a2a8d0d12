import OpenViking.Session.History

/-!
# No message of a session is lost or repeated

The invariant of a run: the archives and the live messages record what was added,
and an archive whose messages have left the live ones is processed or waits for
Phase 2.
-/

namespace OpenViking
namespace Session

open Interleaving Store List Archive Nat

/-!
# Raw messages of the archives
-/

def Store.rawOf (st : Store) (index : Nat) : List Message :=
  ((st.archive index).bind Archive.raw).getD []

def Store.archivedIds (st : Store) : List Nat :=
  ids st.archivedMessages

theorem map_modify_of_same {α β : Type} {f : α -> α} {g : α -> β}
    (h : forall a, g (f a) = g a) (xs : List α) (i : Nat) :
    (xs.modify i f).map g = xs.map g := by
  apply ext_getElem?
  intro j
  rw [getElem?_map, getElem?_map, getElem?_modify]
  cases xs[j]? with
  | none => rfl
  | some a =>
    by_cases hij : i = j
    · simp [hij, h]
    · simp [hij]

variable {index : Nat} {st : Store} {f : Archive -> Archive}

theorem archivedIds_updateArchive (hraw : forall a, (f a).raw = a.raw)
    (hexists : (st.archive index).isSome = true) :
    (st.updateArchive index f).archivedIds = st.archivedIds := by
  rcases archive_isSome_iff.mp hexists with ⟨hpos, hle⟩
  have hmap : (st.updateArchive index f).archives.map (fun a => a.raw.getD []) =
      st.archives.map (fun a => a.raw.getD []) := by
    unfold updateArchive
    dsimp only
    rw [if_pos (by omega)]
    apply map_modify_of_same
    intro a
    rw [hraw]
  unfold archivedIds archivedMessages
  rw [flatMap_def, flatMap_def, hmap]

theorem rawOf_updateArchive
    (hraw : forall a, (f a).raw = a.raw)
    (hexists : (st.archive index).isSome = true) (other : Nat) :
    (st.updateArchive index f).rawOf other = st.rawOf other := by
  rcases archive_isSome_iff.mp hexists with ⟨hpos, hle⟩
  unfold rawOf
  by_cases hother : other = index
  · subst hother
    rw [archive_updateArchive_self hpos (le_succ_of_le hle)]
    rcases Option.isSome_iff_exists.mp hexists with ⟨a, ha⟩
    rw [ha]
    exact congrArg (fun raw => Option.getD raw []) (hraw a)
  · rw [archive_updateArchive_other hpos (le_succ_of_le hle) hother]

variable {st' : Store}

/-- A state with at most one archive more. -/
theorem archives_eq_append {st : Store}
    (hother : forall other, other ≠ st.archives.length + 1 ->
      st'.archive other = st.archive other)
    (hlow : st.archives.length ≤ st'.archives.length)
    (hhigh : st'.archives.length ≤ st.archives.length + 1) :
    st'.archives =
      st.archives ++ (st'.archive (st.archives.length + 1)).toList := by
  have hget (i : Nat) (h : i ≠ st.archives.length) :
      st'.archives[i]? = st.archives[i]? := by
    have hsame := hother (i + 1) (by omega)
    unfold archive at hsame
    simpa using hsame
  apply ext_getElem?
  intro i
  by_cases hi : i < st.archives.length
  · rw [hget i (Nat.ne_of_lt hi), getElem?_append_left hi]
  rw [getElem?_append_right (Nat.le_of_not_lt hi)]
  have hlast : st'.archive (st.archives.length + 1) =
      st'.archives[st.archives.length]? := by
    unfold archive
    simp
  rw [hlast]
  by_cases heq : i = st.archives.length
  · rw [heq, Nat.sub_self]
    cases st'.archives[st.archives.length]? with
    | none => rfl
    | some a => rfl
  · rw [getElem?_eq_none (by omega), getElem?_eq_none]
    have hone : (st'.archives[st.archives.length]?).toList.length ≤ 1 := by
      cases st'.archives[st.archives.length]? with
      | none => exact Nat.zero_le 1
      | some a => exact Nat.le_refl 1
    omega

theorem archivedIds_append {st : Store} {slot : Option Archive}
    (h : st'.archives = st.archives ++ slot.toList) :
    st'.archivedIds =
      st.archivedIds ++ ids ((slot.bind raw).getD []) := by
  unfold archivedIds archivedMessages
  rw [h, flatMap_append, ids_append]
  congr 2
  cases slot with
  | none => rfl
  | some a => simp

theorem ids_rawOf_subset (index : Nat) {id : Nat}
    (h : id ∈ ids (st.rawOf index)) : id ∈ st.archivedIds := by
  unfold rawOf at h
  cases ha : st.archive index with
  | none =>
    rw [ha] at h
    cases h
  | some a =>
    rw [ha] at h
    rcases mem_map.mp h with ⟨m, hm, hid⟩
    rw [← hid]
    apply mem_ids
    apply mem_flatMap.mpr
    exact ⟨a, mem_of_getElem? (archive_eq_some_iff.mp ha).2, hm⟩

/-!
# The invariant
-/

/-- What the marker of an archive tells of its queue item and of the messages that
have left. -/
structure MarkerOk (st : Store) (item : QueueItem) (raw : List Message)
    (marker : Phase1) : Prop where
  task : forall task, marker.taskId = some task -> task = item.task
  lists : marker.ready = false ->
    marker.taskId = some item.task ∧ marker.archivedMessageIds = some (ids raw) ∧
      exists retained, marker.retainedMessageIds = some retained ∧
        forall id, id ∈ ids raw -> id ∈ retained ∨ id ∉ ids st.live

/-- An archive whose messages have left the live ones. -/
structure Moved (st : Store) (index : Nat) (a : Archive) (raw : List Message) :
    Prop where
  found : st.archive index = some a
  stored : a.raw = some raw
  nonempty : raw ≠ []
  state :
    (a.processed = true ∧
        forall marker, a.phase1 = some marker -> marker.ready = true) ∨
      (a.terminal = false ∧ exists item, item ∈ st.queue ∧ item.archive = index ∧
        forall marker, a.phase1 = some marker -> MarkerOk st item raw marker)

structure Kept (h : History) : Prop where
  recorded : Recorded h.store.archivedIds (ids h.store.live) h.added
  workers : forall worker, worker ∈ h.workers ->
    worker.compressionIndex ≤ h.store.archives.length ∧
      worker.sessionMeta.commitCount ≤ h.store.archives.length
  commitCount : h.store.sessionMeta.commitCount ≤ h.store.archives.length
  moved : forall index, index ∈ h.moved ->
    exists a raw, Moved h.store index a raw
  covered : forall id, id ∈ h.added ->
    id ∈ ids h.store.live ∨
      exists index, index ∈ h.moved ∧ id ∈ ids (h.store.rawOf index)

theorem kept_new : Kept History.new := by
  refine ⟨⟨nodup_nil, [], [], rfl, ?_, rfl⟩, ?_, le_refl 0, ?_, ?_⟩
  · nofun
  · nofun
  · nofun
  · nofun

variable {raw : List Message} {a : Archive}

theorem Moved.served
    (h : Moved st index a raw) : Served st index a := by
  rcases h.state with ⟨hprocessed, _⟩ | ⟨hterminal, item, hitem, harchive, _⟩
  · exact .inl hprocessed
  · exact .inr ⟨hterminal, item, hitem, harchive⟩

theorem Moved.rawOf
    (h : Moved st index a raw) : st.rawOf index = raw := by
  unfold Store.rawOf
  rw [h.found]
  change a.raw.getD [] = raw
  rw [h.stored]
  rfl

theorem Moved.not_both (hterminal : a.terminal = false) :
    a.processed = false := by
  unfold terminal at hterminal
  unfold processed
  cases hdone : a.done with
  | true =>
    rw [hdone] at hterminal
    cases hterminal
  | false =>
    cases hfailed : a.failed with
    | none => rfl
    | some stage =>
      rw [hdone, hfailed] at hterminal
      cases hterminal

theorem Moved.waits
    (h : Moved st index a raw) (hterminal : a.terminal = false) :
    exists item, item ∈ st.queue ∧ item.archive = index ∧
      forall marker, a.phase1 = some marker -> MarkerOk st item raw marker := by
  rcases h.state with ⟨hprocessed, _⟩ | ⟨_, hitem⟩
  · rw [Moved.not_both hterminal] at hprocessed
    cases hprocessed
  · exact hitem

theorem Moved.mono {st : Store} (h : Moved st index a raw)
    (hfound : st'.archive index = st.archive index)
    (hqueue : forall item, item ∈ st.queue -> item.archive = index ->
      item ∈ st'.queue)
    (hlive : forall id, id ∈ ids st'.live ->
      id ∈ ids st.live ∨ id ∉ st.archivedIds) : Moved st' index a raw := by
  have hraw : forall id, id ∈ ids raw -> id ∈ st.archivedIds := by
    intro id hid
    apply ids_rawOf_subset index
    rw [h.rawOf]
    exact hid
  refine ⟨hfound.trans h.found, h.stored, h.nonempty, ?_⟩
  rcases h.state with hprocessed | ⟨hterminal, item, hitem, harchive, hmarkers⟩
  · exact .inl hprocessed
  refine .inr ⟨hterminal, item, hqueue item hitem harchive, harchive, ?_⟩
  intro marker hmarker
  refine ⟨(hmarkers marker hmarker).task, ?_⟩
  intro hready
  rcases (hmarkers marker hmarker).lists hready with
    ⟨htask, hids, retained, hretained, hgone⟩
  refine ⟨htask, hids, retained, hretained, ?_⟩
  intro id hid
  rcases hgone id hid with hin | hout
  · exact .inl hin
  · apply Or.inr
    intro hback
    rcases hlive id hback with hold | hnew
    · exact hout hold
    · exact hnew (hraw id hid)

/-!
# Steps that keep the messages in their places
-/

/-- A step that changes one archive, but not its messages, and takes only items of
that archive from the queue. -/
theorem Kept.edit {h : History} {base : Store} (hk : Kept h)
    (ha : h.store.archive index = some a)
    (harchives : base.archives = h.store.archives)
    (hlive : base.live = h.store.live)
    (hqueue : forall item, item ∈ h.store.queue -> item.archive ≠ index ->
      item ∈ base.queue)
    (hcount : base.sessionMeta.commitCount ≤ h.store.archives.length)
    (hraw : forall a, (f a).raw = a.raw)
    (hself : forall raw, index ∈ h.moved -> Moved h.store index a raw ->
      Moved (base.updateArchive index f) index (f a) raw) :
    Kept { h with store := base.updateArchive index f } := by
  rcases archive_range ha with ⟨hpos, hle⟩
  have hle' : index ≤ base.archives.length + 1 := by
    rw [harchives]
    exact le_succ_of_le hle
  have hexists' : (base.archive index).isSome = true :=
    Option.isSome_of_eq_some ((archive_congr harchives index).trans ha)
  have hids : (base.updateArchive index f).archivedIds = h.store.archivedIds := by
    rw [archivedIds_updateArchive hraw hexists']
    unfold archivedIds archivedMessages
    rw [harchives]
  have hraws (other : Nat) :
      (base.updateArchive index f).rawOf other = h.store.rawOf other := by
    rw [rawOf_updateArchive hraw hexists']
    unfold rawOf
    rw [archive_congr harchives]
  have hlength : (base.updateArchive index f).archives.length =
      h.store.archives.length := by
    rw [length_updateArchive hpos hle', harchives]
    omega
  refine ⟨?_, ?_, ?_, ?_, ?_⟩
  · dsimp only
    rw [hids, live_updateArchive, hlive]
    exact hk.recorded
  · intro worker hworker
    dsimp only
    rw [hlength]
    exact hk.workers worker hworker
  · dsimp only
    rw [hlength, sessionMeta_updateArchive]
    exact hcount
  · intro other hother
    rcases hk.moved other hother with ⟨b, raw, hmoved⟩
    by_cases heq : other = index
    · subst heq
      cases hmoved.found.symm.trans ha
      exact ⟨f a, raw, hself raw hother hmoved⟩
    refine ⟨b, raw, hmoved.mono ?_ ?_ ?_⟩
    · rw [archive_updateArchive_other hpos hle' heq,
        archive_congr harchives]
    · intro item hitem harchive
      exact hqueue item hitem (harchive ▸ heq)
    · intro id hid
      rw [live_updateArchive, hlive] at hid
      exact .inl hid
  · intro id hid
    rcases hk.covered id hid with hin | ⟨other, hother, hin⟩
    · apply Or.inl
      dsimp only
      rw [live_updateArchive, hlive]
      exact hin
    · refine .inr ⟨other, hother, ?_⟩
      dsimp only
      rw [hraws]
      exact hin

variable {worker : Worker} {w : Nat}

theorem Kept.readMeta_le {h : History} (hk : Kept h)
    (hworker : h.workers[w]? = some worker) (unreadable : Bool) :
    (readMeta unreadable worker h.store).commitCount ≤
      h.store.archives.length := by
  cases unreadable with
  | true => exact (hk.workers worker (mem_of_getElem? hworker)).2
  | false => exact hk.commitCount

variable {item : QueueItem}

theorem hasWork_of_mem (h : item ∈ st.queue) : st.hasWork item.task = true :=
  any_eq_true.mpr ⟨item, h, beq_self_eq_true item.task⟩

theorem Moved.recoverable {marker : Phase1} (h : Moved st index a raw)
    (hmarker : a.phase1 = some marker) (hready : marker.ready = false)
    (hhead : forall retained, a.terminal = false ->
      marker.retainedMessageIds = some retained ->
        (ids st.live).take retained.length = retained) :
    Recoverable st marker := by
  rcases h.state with ⟨_, hall⟩ | ⟨hterminal, item, hitem, _, hmarkers⟩
  · rw [hall marker hmarker] at hready
    cases hready
  rcases (hmarkers marker hmarker).lists hready with
    ⟨htask, harchived, retained, hretained, hgone⟩
  refine ⟨item.task, ids raw, retained, htask, harchived, hretained,
    hasWork_of_mem hitem, ?_⟩
  unfold phase1Applied
  rw [hhead retained hterminal hretained, beq_self_eq_true, Bool.true_and,
    all_eq_true]
  intro id hid
  rcases hgone id hid with hin | hout
  · simp [hin]
  · simp [hout]

variable {cfg : Externalizer} {h h' : History}

variable {unreadable : Bool}

theorem step_addMessages {w : Nat} {messages : List Message}
    (hstep : step cfg h (.addMessages w unreadable messages) = some h') :
    exists worker, h.workers[w]? = some worker ∧ freshIds h.added messages = true ∧
      h' =
        { h with
          workers := h.workers.set w (appendMessages unreadable messages worker h.store).1
          store := (appendMessages unreadable messages worker h.store).2
          added := h.added ++ ids messages } := by
  rw [step] at hstep
  split at hstep
  case h_1 => cases hstep
  case h_2 worker hworker =>
    split at hstep
    case isTrue hfresh =>
      cases hstep
      exact ⟨worker, hworker, hfresh, rfl⟩
    case isFalse => cases hstep

variable {fate : Fate}

variable {request : CommitRequest}

theorem step_commit {w : Nat} {faults : CommitFaults}
    (hstep : step cfg h (.commit w request faults fate) = some h') :
    exists worker, h.workers[w]? = some worker ∧
      h' =
        { h with
          workers := h.workers.set w (commitAsync cfg request faults fate worker h.store).1
          store := (commitAsync cfg request faults fate worker h.store).2
          moved := h.moved ++
            (if request.valid then
              movedBy (commitPlan cfg request faults worker h.store) fate
            else []) } := by
  rw [step] at hstep
  split at hstep
  case h_1 => cases hstep
  case h_2 worker hworker =>
    cases hstep
    exact ⟨worker, hworker, rfl⟩

theorem step_recover {w index : Nat}
    (hstep : step cfg h (.recover w unreadable index) = some h') :
    exists worker, h.workers[w]? = some worker ∧
      h' = { h with store := (ensurePhase1Ready unreadable worker index h.store).2 } := by
  rw [step] at hstep
  split at hstep
  case h_1 => cases hstep
  case h_2 worker hworker =>
    cases hstep
    exact ⟨worker, hworker, rfl⟩

theorem step_complete {w : Nat} {succeeds : Bool}
    (hstep : step cfg h (.complete w unreadable item succeeds) = some h') :
    exists worker st, h.workers[w]? = some worker ∧
      completeArchive (readMeta unreadable worker h.store) item succeeds h.store =
        some st ∧ h' = { h with store := st } := by
  rw [step] at hstep
  split at hstep
  case h_1 => cases hstep
  case h_2 worker hworker =>
    split at hstep
    case isTrue =>
      rcases Option.map_eq_some_iff.mp hstep with ⟨st, hst, heq⟩
      exact ⟨worker, st, hworker, hst, heq.symm⟩
    case isFalse => cases hstep

/-- A recovery never fails an archive whose messages have left. -/
theorem Kept.recover {w index : Nat} (hk : Kept h)
    (hok : Harmless cfg h (.recover w unreadable index))
    (hstep : step cfg h (.recover w unreadable index) = some h') :
    Kept h' := by
  rcases step_recover hstep with ⟨worker, hworker, rfl⟩
  have hcount := hk.readMeta_le hworker unreadable
  rcases ensurePhase1Ready_cases unreadable worker index h.store with
    ⟨heq, _⟩ | ⟨a, marker, ha, hmarker, hready, ⟨_, heq⟩ | ⟨hfailed, heq⟩⟩
  · rw [heq]
    exact hk
  · rw [heq]
    exact hk
  · rw [heq]
    generalize readMeta unreadable worker h.store = sessionMeta at hcount
    have hrange := archive_range ha
    rcases recoverPhase1_cases sessionMeta index marker h.store with
      ⟨hrecoverable, hresult⟩ | ⟨hlost, hresult⟩
    · rw [hresult]
      apply hk.edit ha
      · rfl
      · rfl
      · exact fun item hitem _ => hitem
      · exact Nat.max_le.mpr ⟨hcount, hrange.2⟩
      · exact fun _ => rfl
      · intro raw hindex hmoved
        refine ⟨?_, hmoved.stored, hmoved.nonempty, ?_⟩
        · exact archive_updateArchive_of_some rfl ha _
        rcases hmoved.state with ⟨hprocessed, _⟩ |
          ⟨hterminal, item, hitem, harchive, hmarkers⟩
        · refine .inl ⟨hprocessed, ?_⟩
          intro marker' hmarker'
          cases hmarker'
          rfl
        · refine .inr ⟨hterminal, item, hitem, harchive, ?_⟩
          intro marker' hmarker'
          cases hmarker'
          exact ⟨(hmarkers marker hmarker).task, nofun⟩
    · rw [hresult]
      apply hk.edit ha
      · rfl
      · rfl
      · exact fun item hitem _ => hitem
      · exact hk.commitCount
      · exact fun _ => rfl
      · intro raw hindex hmoved
        exact absurd (hmoved.recoverable hmarker hready
          (fun retained hterminal hretained => hok hindex _ marker retained ha
            hterminal hmarker hready hretained)) hlost

/-!
# Completing an archive
-/

theorem mem_erase_of_archive_ne {queue : List QueueItem} {other : QueueItem}
    (h : other ∈ queue) (hne : other.archive ≠ item.archive) :
    other ∈ queue.erase item := by
  apply (mem_erase_of_ne _).mpr h
  intro heq
  exact hne (congrArg QueueItem.archive heq)

theorem Kept.ack {h : History} (hk : Kept h)
    (ha : h.store.archive item.archive = some a) (hterminal : a.terminal = true) :
    Kept { h with store := h.store.ack item } := by
  refine ⟨hk.recorded, hk.workers, hk.commitCount, ?_, hk.covered⟩
  intro index hindex
  rcases hk.moved index hindex with ⟨b, raw, hmoved⟩
  refine ⟨b, raw, ?_⟩
  by_cases heq : index = item.archive
  · subst heq
    cases hmoved.found.symm.trans ha
    refine ⟨ha, hmoved.stored, hmoved.nonempty, ?_⟩
    rcases hmoved.state with hprocessed | ⟨hpending, _⟩
    · exact .inl hprocessed
    · rw [hterminal] at hpending
      cases hpending
  · have hfound : (h.store.ack item).archive index = h.store.archive index := rfl
    apply hmoved.mono hfound
    · intro other hother harchive
      apply mem_erase_of_archive_ne hother
      rw [harchive]
      exact heq
    · exact fun id hid => .inl hid

theorem ack_updateArchive (st : Store) (index : Nat) (f : Archive -> Archive)
    (item : QueueItem) :
    (st.updateArchive index f).ack item = (st.ack item).updateArchive index f :=
  rfl

theorem Kept.complete
    {succeeds : Bool} (hk : Kept h)
    (hstep : step cfg h (.complete w unreadable item succeeds) = some h') :
    Kept h' := by
  rcases step_complete hstep with ⟨worker, st, hworker, hst, rfl⟩
  have hcount := hk.readMeta_le hworker unreadable
  generalize readMeta unreadable worker h.store = sessionMeta at hcount hst
  unfold completeArchive at hst
  cases ha : h.store.archive item.archive with
  | none =>
    rw [ha] at hst
    cases hst
  | some a =>
    rw [ha] at hst
    dsimp only at hst
    have hrange := archive_range ha
    by_cases hterminal : a.terminal = true
    · rw [if_pos hterminal] at hst
      cases hst
      exact hk.ack ha hterminal
    rw [if_neg hterminal] at hst
    by_cases hready : (a.phase1.map Phase1.ready).getD true = true
    · rw [if_pos hready] at hst
      have hmarkers : forall marker, a.phase1 = some marker ->
          marker.ready = true := by
        intro marker hmarker
        rw [hmarker] at hready
        exact hready
      have hqueue : forall other, other ∈ h.store.queue ->
          other.archive ≠ item.archive -> other ∈ h.store.queue.erase item :=
        fun other hother hne => mem_erase_of_archive_ne hother hne
      by_cases hempty : (a.raw.getD []).isEmpty = true
      · rw [if_pos hempty] at hst
        cases hst
        rw [ack_updateArchive]
        apply hk.edit ha
        · rfl
        · rfl
        · exact hqueue
        · exact hk.commitCount
        · exact fun _ => rfl
        · intro raw _ hmoved
          rw [hmoved.stored] at hempty
          exact absurd (isEmpty_iff.mp hempty) hmoved.nonempty
      · rw [if_neg hempty] at hst
        cases succeeds with
        | true =>
          cases hst
          rw [ack_updateArchive]
          apply hk.edit ha
          · rfl
          · rfl
          · exact hqueue
          · exact Nat.max_le.mpr ⟨hcount, hrange.2⟩
          · exact fun _ => rfl
          · intro raw _ hmoved
            exact ⟨archive_updateArchive_of_some rfl ha _,
              hmoved.stored, hmoved.nonempty, .inl ⟨rfl, hmarkers⟩⟩
        | false =>
          cases hst
          rw [ack_updateArchive]
          apply hk.edit ha
          · rfl
          · rfl
          · exact hqueue
          · exact hk.commitCount
          · exact fun _ => rfl
          · intro raw _ hmoved
            refine ⟨archive_updateArchive_of_some rfl ha _,
              hmoved.stored, hmoved.nonempty, .inl ⟨?_, hmarkers⟩⟩
            exact (Bool.or_eq_true _ _).mpr (.inr rfl)
    · rw [if_neg hready] at hst
      cases hst

theorem Kept.skipOrphan
    (hk : Kept h) (hstep : step cfg h (.skipOrphan index) = some h') :
    Kept h' := by
  rw [step] at hstep
  rcases Option.map_eq_some_iff.mp hstep with ⟨st, hst, heq⟩
  cases heq
  unfold Session.skipOrphan at hst
  split at hst
  case h_1 => cases hst
  case h_2 a ha =>
    split at hst
    case h_1 => cases hst
    case h_2 marker hmarker =>
      split at hst
      case h_1 => cases hst
      case h_2 task htask =>
        split at hst
        case isTrue horphan =>
          cases hst
          apply hk.edit ha
          · rfl
          · rfl
          · exact fun item hitem _ => hitem
          · exact hk.commitCount
          · exact fun _ => rfl
          · intro raw _ hmoved
            simp only [Bool.and_eq_true, Bool.not_eq_true'] at horphan
            rcases hmoved.waits horphan.1.1 with
              ⟨item, hitem, _, hmarkers⟩
            have hsame := (hmarkers marker hmarker).task task htask
            rw [hsame, hasWork_of_mem hitem] at horphan
            cases horphan.2
        case isFalse => cases hst

/-!
# Adding messages
-/

theorem applyAppended_commitCount (messages : List Message)
    (sessionMeta : SessionMeta) (live : List Message) :
    (applyAppended sessionMeta live messages).commitCount =
      sessionMeta.commitCount := by
  induction messages generalizing sessionMeta live with
  | nil => rfl
  | cons m rest ih =>
    rw [applyAppended, ih]

theorem mem_set {worker other : Worker} {workers : List Worker}
    (h : other ∈ workers.set w worker) : other ∈ workers ∨ other = worker :=
  mem_or_eq_of_mem_set h

theorem Kept.openWorker (hk : Kept h)
    (hstep : step cfg h .openWorker = some h') : Kept h' := by
  cases hstep
  refine ⟨hk.recorded, ?_, hk.commitCount, hk.moved, hk.covered⟩
  intro worker hworker
  rcases mem_append.mp hworker with hold | hnew
  · exact hk.workers worker hold
  · rw [mem_singleton.mp hnew]
    exact ⟨hk.commitCount, hk.commitCount⟩

theorem Kept.addMessages {messages : List Message} (hk : Kept h)
    (hstep : step cfg h (.addMessages w unreadable messages) = some h') :
    Kept h' := by
  rcases step_addMessages hstep with ⟨worker, hworker, hfresh, rfl⟩
  have hread := hk.readMeta_le hworker unreadable
  have hold := hk.workers worker (mem_of_getElem? hworker)
  rcases (Bool.and_eq_true _ _).mp hfresh with ⟨hnodup, hnew⟩
  have hnotin : forall id, id ∈ ids messages -> id ∉ h.added := by
    intro id hid
    simpa using all_eq_true.mp hnew id hid
  unfold appendMessages
  split
  · next hempty =>
      rw [isEmpty_iff.mp hempty]
      change Kept { h with
        workers := h.workers.set w worker, added := h.added ++ [] }
      rw [append_nil]
      refine ⟨hk.recorded, ?_, hk.commitCount, hk.moved, hk.covered⟩
      intro other hother
      rcases mem_set hother with hin | heq
      · exact hk.workers other hin
      · rw [heq]
        exact hold
  · have hcount : (appendedMeta (readMeta unreadable worker h.store)
        h.store.live messages).commitCount ≤ h.store.archives.length := by
      change (applyAppended _ _ _).commitCount ≤ _
      rw [applyAppended_commitCount]
      exact hread
    refine ⟨?_, ?_, hcount, ?_, ?_⟩
    · dsimp only
      rw [ids_append]
      exact hk.recorded.append (of_decide_eq_true hnodup) hnotin
    · intro other hother
      rcases mem_set hother with hin | heq
      · exact hk.workers other hin
      · rw [heq]
        exact ⟨hold.1, hcount⟩
    · intro index hindex
      rcases hk.moved index hindex with ⟨a, raw, hmoved⟩
      refine ⟨a, raw, hmoved.mono rfl (fun item hitem _ => hitem) ?_⟩
      intro id hid
      dsimp only at hid
      rw [ids_append] at hid
      rcases mem_append.mp hid with hin | hin
      · exact .inl hin
      · exact .inr
          (fun harchived => hnotin id hin (hk.recorded.archived_subset harchived))
    · intro id hid
      rcases mem_append.mp hid with hin | hin
      · rcases hk.covered id hin with hlive | hindex
        · apply Or.inl
          dsimp only
          rw [ids_append]
          exact mem_append_left _ hlive
        · exact .inr hindex
      · apply Or.inl
        dsimp only
        rw [ids_append]
        exact mem_append_right _ hin

/-!
# Committing
-/

theorem splitMessages_ids (cfg : Externalizer) (request : CommitRequest)
    (messages : List Message) :
    exists back kept, ids messages =
        ids (splitMessages cfg request messages).1 ++ ids back ∧
      (splitMessages cfg request messages).2 = kept ++ back ∧
      forall m, m ∈ kept -> m ∈ (splitMessages cfg request messages).1 := by
  rcases splitMessages_split cfg request messages with
    ⟨shown, hshown, back, hfront, hback⟩
  rw [← hshown]
  rcases hback with heq | ⟨a, ha, heq⟩
  · refine ⟨back, [], ?_, heq, nofun⟩
    rw [hfront, ids_append]
  · refine ⟨back, [a], ?_, heq, ?_⟩
    · rw [hfront, ids_append]
    · intro m hm
      rw [mem_singleton.mp hm]
      exact ha

variable {faults : CommitFaults}

variable {plan : CommitPlan}

theorem archives_applyWrites_of_noEdit (writes : List CommitWrite)
    (hnone : forall write, write ∈ writes -> write.edit faults plan = none)
    (st : Store) :
    (applyWrites faults plan writes st).archives = st.archives := by
  induction writes generalizing st with
  | nil => rfl
  | cons write rest ih =>
    rw [applyWrites_cons, ih (fun other hother =>
      hnone other (mem_cons_of_mem _ hother)), CommitWrite.apply_archives,
      hnone write mem_cons_self]

theorem Kept.sameMessages {h : History} {workers : List Worker}
    (hk : Kept h) (harchives : st'.archives = h.store.archives)
    (hlive : ids st'.live = ids h.store.live)
    (hqueue : forall item, item ∈ h.store.queue -> item ∈ st'.queue)
    (hcount : st'.sessionMeta.commitCount ≤ h.store.archives.length)
    (hworkers : forall worker, worker ∈ workers ->
      worker.compressionIndex ≤ h.store.archives.length ∧
        worker.sessionMeta.commitCount ≤ h.store.archives.length) :
    Kept { h with store := st', workers := workers } := by
  have hids : st'.archivedIds = h.store.archivedIds := by
    unfold archivedIds archivedMessages
    rw [harchives]
  have hraw (index : Nat) : st'.rawOf index = h.store.rawOf index := by
    unfold rawOf
    rw [archive_congr harchives]
  refine ⟨?_, ?_, ?_, ?_, ?_⟩
  · dsimp only
    rw [hids, hlive]
    exact hk.recorded
  · dsimp only
    rw [harchives]
    exact hworkers
  · dsimp only
    rw [harchives]
    exact hcount
  · intro index hindex
    rcases hk.moved index hindex with ⟨a, raw, hmoved⟩
    refine ⟨a, raw, hmoved.mono (archive_congr harchives index)
      (fun item hitem _ => hqueue item hitem) ?_⟩
    intro id hid
    rw [hlive] at hid
    exact .inl hid
  · intro id hid
    dsimp only
    rw [hlive]
    rcases hk.covered id hid with hin | ⟨index, hindex, hin⟩
    · exact .inl hin
    · refine .inr ⟨index, hindex, ?_⟩
      rw [hraw]
      exact hin

theorem commitWorker_le {st after : Store} {limit : Nat}
    (hplan : fate = Fate.finished -> plan.index ≤ limit)
    (hback : plan.archives = true -> plan.index - 1 ≤ limit)
    (hskip : plan.archives = false -> plan.index ≤ limit)
    (hread : (readMeta faults.metaUnreadable worker st).commitCount ≤ limit)
    (hmeta : CommitWrite.overview ∉ plan.writes.drop (fate.written plan) ->
      plan.sessionMeta.commitCount ≤ limit)
    (hafter : after.sessionMeta.commitCount ≤ limit) :
    (commitWorker faults plan fate worker st after).compressionIndex ≤ limit ∧
      (commitWorker faults plan fate worker st after).sessionMeta.commitCount ≤
        limit := by
  unfold commitWorker
  cases fate with
  | finished =>
    refine ⟨hplan rfl, hmeta ?_⟩
    rw [Fate.written, drop_length]
    exact not_mem_nil
  | raised written marked =>
    dsimp only
    constructor
    · split
      · next harchives => exact hback harchives
      · next hnone => exact hskip (Bool.eq_false_iff.mpr hnone)
    · split
      · exact hread
      · next hnone =>
          apply hmeta
          intro hmem
          exact hnone (contains_iff_mem.mpr hmem)
  | crashed written => exact ⟨hafter, hafter⟩

theorem Kept.skip {h : History} {retained : List Message} (request : CommitRequest)
    (fate : Fate) (hk : Kept h)
    (hworker : h.workers[w]? = some worker)
    (hindex : index ≤ h.store.archives.length)
    (hretained : ids retained = ids h.store.live) :
    let plan := skipPlan request index
      (readMeta faults.metaUnreadable worker h.store) retained h.store
    let after := commitStore faults plan fate h.store
    Kept { h with
      workers := h.workers.set w
        (commitWorker faults plan fate worker h.store after)
      store := after } := by
  intro plan after
  have hread := hk.readMeta_le hworker faults.metaUnreadable
  have hafter : after = applyWrites faults plan (plan.taken fate)
      { h.store with nextTask := h.store.nextTask + 1 } :=
    commitStore_of_skip rfl
  have hwrites : forall write, write ∈ plan.taken fate ->
      write = .root ∨ write = .abstract ∨
        write = .overview ∨ write = .sessionMeta := by
    intro write hwrite
    have hin : write ∈ plan.writes := mem_of_mem_take hwrite
    change write ∈ (if h.store.live.isEmpty then _ else _) at hin
    split at hin
    · simp at hin
      exact .inr (.inr (.inr hin))
    · simpa using hin
  have harchives : after.archives = h.store.archives := by
    rw [hafter]
    apply archives_applyWrites_of_noEdit
    intro write hwrite
    rcases hwrites write hwrite with heq | heq | heq | heq
    · rw [heq]; rfl
    · rw [heq]; rfl
    · rw [heq]; rfl
    · rw [heq]; rfl
  have hlive : ids after.live = ids h.store.live := by
    rw [commitStore_live]
    split
    · exact hretained
    · rfl
  have hcount : after.sessionMeta.commitCount ≤ h.store.archives.length := by
    rw [commitStore_sessionMeta]
    split
    · exact hread
    · exact hk.commitCount
  apply hk.sameMessages harchives hlive
  · intro item hitem
    exact mem_commitStore_queue.mpr (.inl hitem)
  · exact hcount
  · intro other hother
    rcases mem_set hother with hin | heq
    · exact hk.workers other hin
    rw [heq]
    apply commitWorker_le
    · exact fun _ => hindex
    · nofun
    · exact fun _ => hindex
    · exact hread
    · exact fun _ => hread
    · exact hcount

theorem rawOf_eq {raw : Option (List Message)}
    (h : (st.archive index).bind Archive.raw = raw) :
    st.rawOf index = raw.getD [] := by
  unfold rawOf
  rw [h]

theorem moved_of_root {turnBudget : Bool}
    (hindex : plan.index = st.archives.length + 1)
    (hwrites : plan.writes = archiveWrites turnBudget)
    (hmarker : plan.marker.taskId = some plan.task ∧
      plan.marker.archivedMessageIds = some (ids plan.archived) ∧
      plan.marker.retainedMessageIds = some (ids plan.retained))
    (harchived : plan.archived ≠ [])
    (hroot : .root ∈ plan.taken fate)
    (hfate : forall written, fate ≠ .raised written true) :
    exists a, Moved (commitStore faults plan fate st) plan.index a
      plan.archived := by
  have hpublic : .archiveRaw ∈ plan.taken fate ∧ .enqueue ∈ plan.taken fate := by
    unfold CommitPlan.taken at hroot ⊢
    rw [hwrites] at hroot ⊢
    exact written_before (by decide) hroot
  have hraw := (commitStore_archives faults fate hindex).2.2.2
  rw [if_pos hpublic.1] at hraw
  rcases Option.bind_eq_some_iff.mp hraw with ⟨a, ha, hstored⟩
  have hslot : editedSlot faults plan (plan.taken fate) none = some a := by
    have hself := (applyWrites_archive faults plan (plan.taken fate)
      { st with nextTask := st.nextTask + 1 } (by rw [hindex]; exact succ_pos _)
      (le_of_eq hindex)).1
    rw [← commitStore_of_not_marked hfate, ha] at hself
    have hnone : ({ st with nextTask := st.nextTask + 1 } : Store).archive
        plan.index = none :=
      archive_eq_none_of_lt (by rw [hindex]; exact lt_succ_self _)
    rw [hnone] at hself
    exact hself.symm
  have hunended := editedSlot_unended hslot
  refine ⟨a, ha, hstored, harchived, .inr ⟨?_, plan.item, ?_, rfl, ?_⟩⟩
  · unfold terminal
    rw [hunended.done, hunended.failed]
    rfl
  · exact mem_commitStore_queue.mpr (.inr ⟨hpublic.2, rfl⟩)
  · intro marker hphase1
    rcases hunended.phase1 marker hphase1 with heq | ⟨hready, htask⟩
    · rw [heq]
      refine ⟨?_, ?_⟩
      · intro task htask
        rw [hmarker.1] at htask
        cases htask
        rfl
      · intro _
        refine ⟨hmarker.1, hmarker.2.1, ids plan.retained, hmarker.2.2, ?_⟩
        intro id _
        rw [commitStore_live, if_pos hroot]
        exact Classical.em _
    · refine ⟨?_, ?_⟩
      · intro task hhas
        have hplan := htask task hhas
        rw [hmarker.1] at hplan
        cases hplan
        rfl
      · intro hnot
        rw [hready] at hnot
        cases hnot

theorem Kept.archive {h : History}
    {archived retained back kept : List Message} (hk : Kept h)
    (hworker : h.workers[w]? = some worker) (harchived : archived ≠ [])
    (hlive : ids h.store.live = ids archived ++ ids back)
    (hretained : retained = kept ++ back)
    (hkept : forall m, m ∈ kept -> m ∈ archived)
    (hfate : forall written, fate = Fate.raised written true ->
      CommitWrite.root ∉ (archiveWrites request.turnBudget).take written) :
    let plan := archivePlan request h.store.archives.length
      (readMeta faults.metaUnreadable worker h.store) archived retained h.store
    let after := commitStore faults plan fate h.store
    Kept { h with
      workers := h.workers.set w
        (commitWorker faults plan fate worker h.store after)
      store := after
      moved := h.moved ++ movedBy plan fate } := by
  intro plan after
  have hread := hk.readMeta_le hworker faults.metaUnreadable
  have hindex : plan.index = h.store.archives.length + 1 := rfl
  have harchives : plan.archives = true := by
    change (!archived.isEmpty) = true
    cases archived with
    | nil => exact absurd rfl harchived
    | cons => rfl
  rcases commitStore_archives faults fate hindex with ⟨hother, hlow, hhigh, hraw⟩
  change forall other, other ≠ plan.index -> after.archive other = _ at hother
  change _ ≤ after.archives.length at hlow
  change after.archives.length ≤ _ at hhigh
  change (after.archive plan.index).bind raw = _ at hraw
  have hafterLive : after.live =
      if CommitWrite.root ∈ plan.taken fate then retained else h.store.live :=
    commitStore_live
  have hsame {index : Nat} {a : Archive} (ha : h.store.archive index = some a) :
      after.archive index = h.store.archive index :=
    hother index (Nat.ne_of_lt (Nat.lt_succ_of_le (archive_range ha).2))
  have hpublic {write : CommitWrite} (hwrite : write ∈ publishing)
      (htaken : write ∈ plan.taken fate) : CommitWrite.archiveRaw ∈ plan.taken fate :=
    (written_before hwrite htaken).1
  have hcreated (htaken : CommitWrite.archiveRaw ∈ plan.taken fate) :
      h.store.archives.length + 1 ≤ after.archives.length := by
    rw [if_pos htaken] at hraw
    rcases Option.bind_eq_some_iff.mp hraw with ⟨a, ha, _⟩
    exact (archive_range ha).2
  have hnewMeta (htaken : CommitWrite.archiveRaw ∈ plan.taken fate) :
      plan.sessionMeta.commitCount ≤ after.archives.length :=
    Nat.max_le.mpr ⟨Nat.le_trans hread hlow, hcreated htaken⟩
  have hids : after.archivedIds = h.store.archivedIds ++
      (if CommitWrite.archiveRaw ∈ plan.taken fate then ids archived else []) := by
    rw [archivedIds_append (archives_eq_append hother hlow hhigh)]
    change _ ++ ids (((after.archive plan.index).bind raw).getD []) = _
    rw [hraw]
    split
    · rfl
    · rfl
  have hsubset : forall id, id ∈ ids after.live -> id ∈ ids h.store.live := by
    intro id hid
    rw [hafterLive] at hid
    split at hid
    · rw [hretained, ids_append] at hid
      rw [hlive]
      rcases mem_append.mp hid with hin | hin
      · rcases mem_map.mp hin with ⟨m, hm, heq⟩
        exact mem_append_left _ (mem_map.mpr ⟨m, hkept m hm, heq⟩)
      · exact mem_append_right _ hin
    · exact hid
  have hrootMoved : movedBy plan fate =
      if CommitWrite.root ∈ plan.taken fate then [plan.index] else [] := by
    unfold movedBy
    rw [harchives, Bool.true_and]
    change (if (plan.taken fate).contains CommitWrite.root then _ else _) = _
    by_cases hroot : CommitWrite.root ∈ plan.taken fate
    · rw [if_pos hroot, if_pos (contains_iff_mem.mpr hroot)]
    · rw [if_neg hroot, if_neg (mt contains_iff_mem.mp hroot)]
  have hrecorded := hk.recorded
  rw [hlive] at hrecorded
  have hafterCount : after.sessionMeta.commitCount ≤ after.archives.length := by
    have hsaved : after.sessionMeta = if CommitWrite.sessionMeta ∈ plan.taken fate
        then plan.sessionMeta else h.store.sessionMeta := commitStore_sessionMeta
    rw [hsaved]
    split
    · next htaken => exact hnewMeta (hpublic (by decide) htaken)
    · exact Nat.le_trans hk.commitCount hlow
  refine ⟨?_, ?_, hafterCount, ?_, ?_⟩
  · change Recorded after.archivedIds (ids after.live) h.added
    rw [hids, hafterLive]
    by_cases hroot : CommitWrite.root ∈ plan.taken fate
    · rw [if_pos hroot, if_pos (hpublic (by decide) hroot), hretained, ids_append]
      apply hrecorded.rewrite
      intro id hid
      rcases mem_map.mp hid with ⟨m, hm, heq⟩
      exact mem_map.mpr ⟨m, hkept m hm, heq⟩
    · rw [if_neg hroot]
      split
      · rw [hlive]
        exact hrecorded.archive
      · rw [append_nil]
        exact hk.recorded
  · intro other hmem
    change other.compressionIndex ≤ after.archives.length ∧
      other.sessionMeta.commitCount ≤ after.archives.length
    rcases mem_set hmem with hin | heq
    · rcases hk.workers other hin with ⟨hone, htwo⟩
      exact ⟨Nat.le_trans hone hlow, Nat.le_trans htwo hlow⟩
    rw [heq]
    apply commitWorker_le
    · intro hfinished
      apply hcreated
      rw [hfinished]
      unfold CommitPlan.taken Fate.written
      rw [take_length]
      change CommitWrite.archiveRaw ∈ archiveWrites request.turnBudget
      cases request.turnBudget with
      | false => decide
      | true => decide
    · intro _
      exact hlow
    · intro hnone
      rw [harchives] at hnone
      cases hnone
    · exact Nat.le_trans hread hlow
    · intro hoverview
      have hall : CommitWrite.overview ∈ plan.writes :=
        (idxOf_publishing request.turnBudget (by decide)).1
      rw [← take_append_drop (fate.written plan) plan.writes] at hall
      rcases mem_append.mp hall with htaken | hdropped
      · exact hnewMeta (hpublic (by decide) htaken)
      · exact absurd hdropped hoverview
    · exact hafterCount
  · intro index hmem
    change exists a raw, Moved after index a raw
    rcases mem_append.mp hmem with hold | hnew
    · rcases hk.moved index hold with ⟨a, raw, hmoved⟩
      refine ⟨a, raw, hmoved.mono (hsame hmoved.found) ?_ ?_⟩
      · intro item hitem _
        exact mem_commitStore_queue.mpr (Or.inl hitem)
      · exact fun id hid => .inl (hsubset id hid)
    · rw [hrootMoved] at hnew
      split at hnew
      · next hroot =>
          rw [mem_singleton.mp hnew]
          have hmarked : forall written, fate ≠ Fate.raised written true := by
            intro written heq
            apply hfate written heq
            rw [heq] at hroot
            exact hroot
          rcases moved_of_root hindex rfl ⟨rfl, rfl, rfl⟩ harchived hroot hmarked with
            ⟨a, hmoved⟩
          exact ⟨a, archived, hmoved⟩
      · cases hnew
  · intro id hid
    change id ∈ ids after.live ∨ exists index,
      index ∈ h.moved ++ movedBy plan fate ∧ id ∈ ids (after.rawOf index)
    rcases hk.covered id hid with hin | ⟨index, hindexMem, hin⟩
    · rw [hafterLive]
      by_cases hroot : CommitWrite.root ∈ plan.taken fate
      · rw [if_pos hroot]
        rw [hlive] at hin
        rcases mem_append.mp hin with hfront | hback
        · apply Or.inr
          refine ⟨plan.index, ?_, ?_⟩
          · rw [hrootMoved, if_pos hroot]
            exact mem_append_right _ (mem_singleton_self _)
          · rw [if_pos (hpublic (by decide) hroot)] at hraw
            rw [rawOf_eq hraw]
            exact hfront
        · apply Or.inl
          rw [hretained, ids_append]
          exact mem_append_right _ hback
      · rw [if_neg hroot]
        exact .inl hin
    · apply Or.inr
      refine ⟨index, mem_append_left _ hindexMem, ?_⟩
      rcases hk.moved index hindexMem with ⟨a, raw, hmoved⟩
      unfold rawOf at hin ⊢
      rw [hsame hmoved.found]
      exact hin

theorem Kept.commit (hk : Kept h)
    (hok : Harmless cfg h (.commit w request faults fate))
    (hstep : step cfg h (.commit w request faults fate) = some h') :
    Kept h' := by
  rcases step_commit hstep with ⟨worker, hworker, rfl⟩
  have hbounds := hk.workers worker (mem_of_getElem? hworker)
  have hread := hk.readMeta_le hworker faults.metaUnreadable
  unfold commitAsync
  by_cases hvalid : request.valid = true
  · rw [if_pos hvalid, if_pos hvalid]
    unfold commitPlan
    dsimp only
    rcases splitMessages_ids cfg request h.store.live with
      ⟨back, kept, hlive, hretained, hkept⟩
    by_cases hempty : (splitMessages cfg request h.store.live).1.isEmpty = true
    · rw [if_pos hempty]
      have hnil := isEmpty_iff.mp hempty
      have hids : ids (splitMessages cfg request h.store.live).2 =
          ids h.store.live := by
        have hnone : kept = [] := by
          apply eq_nil_iff_forall_not_mem.mpr
          intro m hm
          have hin := hkept m hm
          rw [hnil] at hin
          cases hin
        rw [hretained, hnone, hlive, hnil]
        rfl
      have hnone (index : Nat) (sessionMeta : SessionMeta) :
          movedBy (skipPlan request index sessionMeta
            (splitMessages cfg request h.store.live).2 h.store) fate = [] := rfl
      rw [hnone, append_nil]
      exact Kept.skip request fate hk hworker
        (compressionIndex_le faults hbounds.1 hread) hids
    · rw [if_neg hempty]
      have hne : (splitMessages cfg request h.store.live).1 ≠ [] := by
        intro hnil
        rw [hnil] at hempty
        exact hempty rfl
      rcases hok hvalid hne with ⟨htrue, hfate⟩
      rw [compressionIndex_eq htrue hbounds.1 hread]
      exact hk.archive hworker hne hlive hretained hkept hfate
  · rw [if_neg hvalid, if_neg hvalid, append_nil]
    refine ⟨hk.recorded, ?_, hk.commitCount, hk.moved, hk.covered⟩
    intro other hother
    rcases mem_set hother with hin | heq
    · exact hk.workers other hin
    · rw [heq]
      exact hbounds

/-!
# Whole runs
-/

theorem Kept.step {action : Action}
    (hk : Kept h) (hok : Harmless cfg h action)
    (hstep : Session.step cfg h action = some h') : Kept h' := by
  cases action with
  | openWorker => exact hk.openWorker hstep
  | addMessages w unreadable messages => exact hk.addMessages hstep
  | commit w request faults fate => exact hk.commit hok hstep
  | recover w unreadable index => exact hk.recover hok hstep
  | complete w unreadable item succeeds => exact hk.complete hstep
  | skipOrphan index => exact hk.skipOrphan hstep

theorem Kept.secured {h : History} (hk : Kept h) {id : Nat} (hid : id ∈ h.added) :
    Secured h.store id := by
  rcases hk.covered id hid with hlive | ⟨index, hindex, hin⟩
  · exact .inl hlive
  · rcases hk.moved index hindex with ⟨a, raw, hmoved⟩
    rw [hmoved.rawOf] at hin
    exact .inr ⟨index, a, raw, hmoved.found, hmoved.stored, hin, hmoved.served⟩

theorem added_mono {action : Action}
    (hstep : step cfg h action = some h') {id : Nat} (hid : id ∈ h.added) :
    id ∈ h'.added := by
  cases action with
  | openWorker =>
    cases hstep
    exact hid
  | addMessages w unreadable messages =>
    rcases step_addMessages hstep with ⟨worker, _, _, rfl⟩
    exact mem_append_left _ hid
  | commit w request faults fate =>
    rcases step_commit hstep with ⟨worker, _, rfl⟩
    exact hid
  | recover w unreadable index =>
    rcases step_recover hstep with ⟨worker, _, rfl⟩
    exact hid
  | complete w unreadable item succeeds =>
    rcases step_complete hstep with ⟨worker, st, _, _, rfl⟩
    exact hid
  | skipOrphan index =>
    rcases Option.map_eq_some_iff.mp hstep with ⟨st, _, heq⟩
    cases heq
    exact hid

/-- The archives with the live messages are the record of what was added, and what
was live at any time is live or in an archive that Phase 2 serves. -/
def KeepsMessages (cfg : Externalizer) (actions : List Action) (h : History) :
    Prop :=
  ids (stableDeduplicateMessages (h.store.archivedMessages ++ h.store.live)) =
      h.added ∧
    forall before later earlier, actions = before ++ later ->
      run (step cfg) History.new before = some earlier ->
        forall m, m ∈ earlier.store.live -> Secured h.store m.id

theorem session_keeps_messages (cfg : Externalizer) {actions : List Action}
    {h : History}
    (hmeets : Interleaving.Meets (step cfg) (Harmless cfg) History.new actions)
    (hrun : run (step cfg) History.new actions = some h) :
    KeepsMessages cfg actions h := by
  have hk : Kept h :=
    run_inv (step cfg) (fun hs hok hstep => hs.step hok hstep)
      kept_new hmeets hrun
  constructor
  · rw [ids_stableDeduplicateMessages, ids_append]
    exact hk.recorded.eraseDups_eq
  intro before later earlier hactions hbefore m hm
  rw [hactions] at hmeets hrun
  have hearlier : Kept earlier := by
    apply run_inv (step cfg)
      (fun hs hok hstep => hs.step hok hstep) kept_new _ hbefore
    exact meets_of_prepended (step cfg) hmeets
  rw [run_append (step cfg) hbefore] at hrun
  have hadded : m.id ∈ earlier.added := hearlier.recorded.live_subset (mem_ids hm)
  apply hk.secured
  exact run_inv_of_step (step cfg)
    (fun {s l s'} (hs : m.id ∈ s.added) hstep => added_mono hstep hs) hadded hrun

/-!
# A message that is lost
-/

def plainEstimate : Externalizer :=
  { estimate := fun _ m => m.estimatedTokens }

def firstMessage : Message :=
  { id := 1, role := Role.user, messageKind := none, parts := [.text],
    estimatedTokens := 4 }

def archiveAll : CommitRequest :=
  { keepRecentCount := 0, turnBudget := false, keepRecentTurnCount := none,
    retainedMessageTokenBudget := none, minRawTailSteps := none,
    persistKeepRecentCount := true }

/-- A commit whose session abstract cannot be written after the root. -/
def failingCommit : List Action :=
  [.openWorker, .addMessages 0 false [firstMessage],
    .commit 0 archiveAll CommitFaults.quiet (.raised 5 true)]

def crashingCommit : List Action :=
  [.openWorker, .addMessages 0 false [firstMessage],
    .commit 0 archiveAll CommitFaults.quiet (.crashed 5)]

theorem session_keeps_messages_recovered :
    exists h, run (step plainEstimate) History.new
        (crashingCommit ++ [.recover 0 false 1]) = some h ∧
      KeepsMessages plainEstimate (crashingCommit ++ [.recover 0 false 1]) h := by
  have hcrash : (run (step plainEstimate) History.new
      crashingCommit).isSome = true := by decide +kernel
  rcases Option.isSome_iff_exists.mp hcrash with ⟨crashed, hcrashed⟩
  have hmarker : ((run (step plainEstimate) History.new
      crashingCommit).bind (fun h => (h.store.archive 1).bind Archive.phase1)).bind
        Phase1.retainedMessageIds = some [] := by decide +kernel
  rw [hcrashed] at hmarker
  have hsome : (run (step plainEstimate) History.new
      (crashingCommit ++ [.recover 0 false 1])).isSome = true := by
    decide +kernel
  rcases Option.isSome_iff_exists.mp hsome with ⟨h, hrun⟩
  refine ⟨h, hrun, session_keeps_messages plainEstimate ?_ hrun⟩
  apply meets_append (step plainEstimate) _ hcrashed
  · refine ⟨?_, fun _ _ => trivial⟩
    intro _ a marker retained ha _ hphase1 _ hretained
    change (crashed.store.archive 1).bind Archive.phase1 >>=
      Phase1.retainedMessageIds = some [] at hmarker
    rw [ha] at hmarker
    change a.phase1 >>= Phase1.retainedMessageIds = some [] at hmarker
    rw [hphase1] at hmarker
    change marker.retainedMessageIds = some [] at hmarker
    rw [hretained] at hmarker
    cases hmarker
    rfl
  · apply meets_of_forall
    intro action haction h
    rcases List.mem_cons.mp haction with heq | haction
    · rw [heq]
      trivial
    rcases List.mem_cons.mp haction with heq | haction
    · rw [heq]
      trivial
    · rw [List.mem_singleton.mp haction]
      intro _ _
      refine ⟨CommitFaults.quiet_truthful h.store, ?_⟩
      intro written heq
      cases heq

/-- The abstract of the session cannot be written after its root: the failure
marker ends the archive and the message is nowhere. -/
theorem failed_commit_loses_message :
    ¬ forall (actions : List Action) (h : History),
      run (step plainEstimate) History.new actions = some h ->
        KeepsMessages plainEstimate actions h := by
  intro hall
  let before : List Action :=
    [.openWorker, .addMessages 0 false [firstMessage]]
  have hfound : ((run (step plainEstimate) History.new
      failingCommit).map (fun h => (h.store.live, h.store.archives.map
        (fun a => (a.done, a.failed))))) =
          some ([], [(false, some .phase1Persist)]) := by
    decide +kernel
  have hearlier : ((run (step plainEstimate) History.new before).map
      (fun h => h.store.live)) = some [firstMessage] := by
    decide +kernel
  rcases Option.map_eq_some_iff.mp hfound with ⟨h, hrun, hstate⟩
  rcases Option.map_eq_some_iff.mp hearlier with ⟨earlier, hbefore, hmessages⟩
  have hsecured := (hall failingCommit h hrun).2 before
    [.commit 0 archiveAll CommitFaults.quiet (.raised 5 true)] earlier rfl
    hbefore firstMessage (by rw [hmessages]; exact List.mem_singleton_self _)
  rcases Prod.mk.inj hstate with ⟨hlive, harchives⟩
  rcases hsecured with hin | ⟨index, a, raw, hfind, _, _, hserved⟩
  · rw [hlive] at hin
    cases hin
  have hmem : a ∈ h.store.archives :=
    List.mem_of_getElem? (archive_eq_some_iff.mp hfind).2
  have hends : (a.done, a.failed) = (false, some .phase1Persist) := by
    have hin := List.mem_map_of_mem (f := fun a : Archive => (a.done, a.failed)) hmem
    rw [harchives] at hin
    exact List.mem_singleton.mp hin
  rcases Prod.mk.inj hends with ⟨hdone, hfailed⟩
  rcases hserved with hprocessed | ⟨hterminal, _⟩
  · unfold Archive.processed at hprocessed
    rw [hdone, hfailed] at hprocessed
    cases hprocessed
  · unfold Archive.terminal at hterminal
    rw [hdone, hfailed] at hterminal
    cases hterminal

end Session
end OpenViking
