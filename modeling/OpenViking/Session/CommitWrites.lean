import OpenViking.Session.Store

/-!
# What a commit writes

Each write of a commit changes one file.  The state after a number of writes is
read off the writes that were taken.
-/

namespace OpenViking
namespace Session

open List CommitWrite Archive Nat

/-!
# Archive directories
-/

namespace Store

variable {st : Store} {index other : Nat} {f : Archive -> Archive}

theorem archive_eq_some_iff {archive : Archive} :
    st.archive index = some archive <->
      0 < index ∧ st.archives[index - 1]? = some archive := by
  unfold Store.archive
  by_cases hzero : index = 0
  · simp [hzero]
  · rw [if_neg hzero]
    exact ⟨fun h => ⟨pos_of_ne_zero hzero, h⟩, fun h => h.2⟩

theorem archive_isSome_iff :
    (st.archive index).isSome = true <-> 0 < index ∧ index ≤ st.archives.length := by
  unfold Store.archive
  by_cases hzero : index = 0
  · simp [hzero]
  · rw [if_neg hzero]
    simp only [isSome_getElem?]
    omega

theorem archive_range {a : Archive} (h : st.archive index = some a) :
    0 < index ∧ index ≤ st.archives.length :=
  archive_isSome_iff.mp (Option.isSome_of_eq_some h)

theorem archive_eq_none_of_lt (h : st.archives.length < index) :
    st.archive index = none := by
  apply Option.not_isSome_iff_eq_none.mp
  intro hsome
  exact absurd (archive_isSome_iff.mp hsome).2 (not_le_of_gt h)

theorem archive_congr {st' : Store} (h : st'.archives = st.archives) (index : Nat) :
    st'.archive index = st.archive index := by
  unfold Store.archive
  rw [h]

@[simp] theorem live_updateArchive :
    (st.updateArchive index f).live = st.live := rfl

@[simp] theorem sessionMeta_updateArchive :
    (st.updateArchive index f).sessionMeta = st.sessionMeta := rfl

@[simp] theorem queue_updateArchive :
    (st.updateArchive index f).queue = st.queue := rfl

@[simp] theorem nextTask_updateArchive :
    (st.updateArchive index f).nextTask = st.nextTask := rfl

theorem length_updateArchive (hpos : 0 < index)
    (hle : index ≤ st.archives.length + 1) :
    (st.updateArchive index f).archives.length =
      max st.archives.length index := by
  unfold Store.updateArchive
  dsimp only
  split
  · rw [length_modify]
    omega
  · rw [length_append, length_singleton]
    omega

theorem archive_updateArchive_self (hpos : 0 < index)
    (hle : index ≤ st.archives.length + 1) :
    (st.updateArchive index f).archive index =
      some (f ((st.archive index).getD empty)) := by
  have hne : ¬ index = 0 := ne_of_gt hpos
  unfold Store.updateArchive Store.archive
  rw [if_neg hne, if_neg hne]
  dsimp only
  by_cases hlt : index - 1 < st.archives.length
  · rw [if_pos hlt, getElem?_modify_eq, getElem?_eq_getElem hlt]
    rfl
  · have heq : index - 1 = st.archives.length := by omega
    rw [if_neg hlt, heq, getElem?_concat_length,
      getElem?_eq_none (le_refl _)]
    rfl

theorem archive_updateArchive_of_some {base : Store} {a : Archive}
    (hbase : base.archives = st.archives) (ha : st.archive index = some a)
    (f : Archive -> Archive) :
    (base.updateArchive index f).archive index = some (f a) := by
  rcases archive_range ha with ⟨hpos, hle⟩
  rw [← hbase] at hle
  rw [archive_updateArchive_self hpos (le_succ_of_le hle),
    archive_congr hbase, ha]
  rfl

theorem archive_updateArchive_other (hpos : 0 < index)
    (hle : index ≤ st.archives.length + 1) (hother : other ≠ index) :
    (st.updateArchive index f).archive other = st.archive other := by
  unfold Store.updateArchive Store.archive
  by_cases hzero : other = 0
  · rw [if_pos hzero, if_pos hzero]
  rw [if_neg hzero, if_neg hzero]
  dsimp only
  by_cases hlt : index - 1 < st.archives.length
  · have hne : index - 1 ≠ other - 1 := by omega
    rw [if_pos hlt, getElem?_modify]
    simp [hne]
  rw [if_neg hlt]
  by_cases hin : other - 1 < st.archives.length
  · rw [getElem?_append_left hin]
  · have hlen : (st.archives ++ [f empty]).length ≤ other - 1 := by
      rw [length_append, length_singleton]
      omega
    rw [getElem?_eq_none hlen, getElem?_eq_none (Nat.le_of_not_lt hin)]

end Store

/-!
# The index of a commit
-/

/-- Checks for archives that are there do not fail. -/
def CommitFaults.Truthful (faults : CommitFaults) (st : Store) : Prop :=
  forall index, index ∈ faults.missedArchives -> st.archive index = none

theorem CommitFaults.quiet_truthful (st : Store) :
    CommitFaults.quiet.Truthful st :=
  fun _ h => absurd h List.not_mem_nil

variable {faults : CommitFaults} {st : Store}

theorem archiveExists_iff
    (htrue : faults.Truthful st) (index : Nat) :
    archiveExists faults st index = true <->
      0 < index ∧ index ≤ st.archives.length := by
  rw [← Store.archive_isSome_iff]
  unfold archiveExists
  cases hmissed : faults.missedArchives.contains index with
  | false => simp
  | true =>
    rw [htrue index (contains_iff_mem.mp hmissed)]
    simp

theorem scanIndex_le (faults : CommitFaults) (fuel index : Nat)
    (hle : index ≤ st.archives.length) :
    scanIndex faults st fuel index ≤ st.archives.length := by
  induction fuel generalizing index with
  | zero => exact hle
  | succ fuel ih =>
    rw [scanIndex]
    by_cases hexists : archiveExists faults st (index + 1) = true
    · rw [if_pos hexists]
      have hin := (Bool.and_eq_true _ _).mp hexists
      exact ih (index + 1) (Store.archive_isSome_iff.mp hin.1).2
    · rw [if_neg hexists]
      exact hle

variable {sessionMeta : SessionMeta}

theorem compressionIndex_le (faults : CommitFaults) {worker : Worker}
    (hworker : worker.compressionIndex ≤ st.archives.length)
    (hmeta : sessionMeta.commitCount ≤ st.archives.length) :
    compressionIndex faults worker sessionMeta st ≤ st.archives.length :=
  scanIndex_le faults _ _ (Nat.max_le.mpr ⟨hworker, hmeta⟩)

theorem scanIndex_eq
    (htrue : faults.Truthful st) (fuel index : Nat)
    (hle : index ≤ st.archives.length)
    (hfuel : st.archives.length < index + fuel) :
    scanIndex faults st fuel index = st.archives.length := by
  induction fuel generalizing index with
  | zero => omega
  | succ fuel ih =>
    rw [scanIndex]
    by_cases hexists : archiveExists faults st (index + 1) = true
    · rw [if_pos hexists]
      have hin := ((archiveExists_iff htrue _).mp hexists).2
      exact ih (index + 1) hin (by omega)
    · rw [if_neg hexists]
      have hout := mt (archiveExists_iff htrue (index + 1)).mpr hexists
      omega

theorem compressionIndex_eq {worker : Worker} (htrue : faults.Truthful st)
    (hworker : worker.compressionIndex ≤ st.archives.length)
    (hmeta : sessionMeta.commitCount ≤ st.archives.length) :
    compressionIndex faults worker sessionMeta st = st.archives.length := by
  apply scanIndex_eq htrue
  · exact Nat.max_le.mpr ⟨hworker, hmeta⟩
  · omega

/-!
# The split
-/

theorem ids_shorten (cfg : Externalizer) (group : List Message) :
    ids (cfg.shorten group) = ids group := by
  rw [ids, Externalizer.shorten, map_map]
  rfl

theorem ids_externalize (cfg : Externalizer) (messages : List Message) :
    ids (cfg.externalize messages) = ids messages := by
  have hturns (turns : List UserTurn) :
      ids (turns.flatMap (fun turn => cfg.shorten turn.messages)) =
        ids (flattenTurns turns) := by
    induction turns with
    | nil => rfl
    | cons turn rest ih =>
      rw [flatMap_cons, ids_append, ids_shorten, ih, ← ids_append]
      rfl
  rw [Externalizer.externalize, hturns, buildTurns_flatten]

theorem splitMessages_split (cfg : Externalizer) (request : CommitRequest)
    (messages : List Message) :
    exists shown, ids shown = ids messages ∧
      SplitAt shown (splitMessages cfg request messages).1
        (splitMessages cfg request messages).2 := by
  unfold splitMessages
  split
  · exact ⟨cfg.externalize messages, ids_externalize cfg messages,
      planRetention_split _ _ _ _⟩
  · refine ⟨messages, rfl, _, ?_, .inl rfl⟩
    exact (take_append_drop _ messages).symm

/-!
# The state after a number of writes
-/

section Writes

variable {faults : CommitFaults} {plan : CommitPlan}

variable (write : CommitWrite)

theorem applyWrites_cons (writes : List CommitWrite) (st : Store) :
    applyWrites faults plan (write :: writes) st =
      applyWrites faults plan writes (write.apply faults plan st) := rfl

theorem CommitWrite.apply_live (st : Store) : (write.apply faults plan st).live =
      if write = .root then plan.retained else st.live := by
  cases write with
  | retentionPlan =>
    rw [apply]
    cases faults.archiveMetaUnreadable with
    | true => rfl
    | false => rfl
  | _ => rfl

theorem CommitWrite.apply_sessionMeta (st : Store) :
    (write.apply faults plan st).sessionMeta =
      if write = .sessionMeta then plan.sessionMeta
      else st.sessionMeta := by
  cases write with
  | retentionPlan =>
    rw [apply]
    cases faults.archiveMetaUnreadable with
    | true => rfl
    | false => rfl
  | _ => rfl

def CommitPlan.item (plan : CommitPlan) : QueueItem :=
  { work := plan.task, task := plan.task, archive := plan.index }

theorem CommitWrite.apply_queue (st : Store) : (write.apply faults plan st).queue =
      if write = .enqueue then st.queue ++ [plan.item]
      else st.queue := by
  cases write with
  | retentionPlan =>
    rw [apply]
    cases faults.archiveMetaUnreadable with
    | true => rfl
    | false => rfl
  | _ => rfl

def CommitWrite.edit (faults : CommitFaults) (plan : CommitPlan) :
    CommitWrite -> Option (Archive -> Archive)
  | phase1Marker => some (fun a => { a with phase1 := some plan.marker })
  | archiveRaw => some (fun a => { a with raw := some plan.archived })
  | retentionPlan =>
    if faults.archiveMetaUnreadable then
      some (fun a => { a with phase1 := none })
    else none
  | readyMarker =>
    some (fun a =>
      let read :=
        if faults.phase1Unreadable then emptyMarker
        else a.phase1.getD emptyMarker
      { a with phase1 := some { read with ready := true } })
  | _ => none

theorem CommitWrite.apply_archives (faults : CommitFaults) (plan : CommitPlan)
    (write : CommitWrite) (st : Store) :
    (write.apply faults plan st).archives =
      match write.edit faults plan with
      | none => st.archives
      | some f => (st.updateArchive plan.index f).archives := by
  cases write with
  | retentionPlan =>
    rw [apply, edit]
    cases faults.archiveMetaUnreadable with
    | true => rfl
    | false => rfl
  | _ => rfl

def CommitWrite.editSlot (faults : CommitFaults) (plan : CommitPlan)
    (slot : Option Archive) (write : CommitWrite) : Option Archive :=
  match write.edit faults plan with
  | none => slot
  | some f => some (f (slot.getD Archive.empty))

def editedSlot (faults : CommitFaults) (plan : CommitPlan)
    (writes : List CommitWrite) (slot : Option Archive) : Option Archive :=
  writes.foldl (CommitWrite.editSlot faults plan) slot

/-- What one write sets has its value once the write is among the applied ones. -/
theorem applyWrites_field {α : Type} {field : Store -> α} {target : CommitWrite} {v : α}
    (h : forall write st, field (write.apply faults plan st) =
      if write = target then v else field st)
    (writes : List CommitWrite) (st : Store) :
    field (applyWrites faults plan writes st) =
      if target ∈ writes then v else field st := by
  induction writes generalizing st with
  | nil => rfl
  | cons write rest ih =>
    rw [applyWrites_cons, ih, h]
    by_cases hrest : target ∈ rest
    · rw [if_pos hrest, if_pos (mem_cons_of_mem _ hrest)]
    rw [if_neg hrest]
    by_cases hwrite : write = target
    · rw [if_pos hwrite, hwrite, if_pos mem_cons_self]
    · rw [if_neg hwrite, if_neg]
      intro hmem
      rcases mem_cons.mp hmem with heq | hin
      · exact hwrite heq.symm
      · exact hrest hin

theorem applyWrites_live (writes : List CommitWrite) (st : Store) :
    (applyWrites faults plan writes st).live =
      if .root ∈ writes then plan.retained else st.live :=
  applyWrites_field (apply_live) writes st

theorem applyWrites_sessionMeta (writes : List CommitWrite) (st : Store) :
    (applyWrites faults plan writes st).sessionMeta =
      if .sessionMeta ∈ writes then plan.sessionMeta
      else st.sessionMeta :=
  applyWrites_field (apply_sessionMeta) writes st

theorem mem_applyWrites_queue (writes : List CommitWrite) (st : Store)
    (item : QueueItem) :
    item ∈ (applyWrites faults plan writes st).queue <->
      item ∈ st.queue ∨ (.enqueue ∈ writes ∧ item = plan.item) := by
  induction writes generalizing st with
  | nil => simp [applyWrites]
  | cons write rest ih =>
    rw [applyWrites_cons, ih, apply_queue]
    by_cases hwrite : write = .enqueue
    · rw [if_pos hwrite, hwrite, mem_append, mem_singleton]
      simp only [mem_cons, true_or, true_and]
      tauto
    · rw [if_neg hwrite]
      have hne : .enqueue ≠ write := fun heq => hwrite heq.symm
      simp only [mem_cons, hne, false_or]

theorem applyWrites_archive (faults : CommitFaults) (plan : CommitPlan)
    (writes : List CommitWrite) (st : Store) (hpos : 0 < plan.index) (hle : plan.index ≤ st.archives.length + 1) :
    (applyWrites faults plan writes st).archive plan.index =
        editedSlot faults plan writes (st.archive plan.index) ∧
      (forall other, other ≠ plan.index ->
        (applyWrites faults plan writes st).archive other = st.archive other) ∧
      st.archives.length ≤ (applyWrites faults plan writes st).archives.length ∧
      (applyWrites faults plan writes st).archives.length ≤
        max st.archives.length plan.index := by
  induction writes generalizing st with
  | nil =>
    exact ⟨rfl, fun _ _ => rfl, le_refl _, le_max_left _ _⟩
  | cons write rest ih =>
    have happly := apply_archives faults plan write st
    cases hedit : write.edit faults plan with
    | none =>
      rw [hedit] at happly
      have hsame := Store.archive_congr happly
      rcases ih (write.apply faults plan st) (by rw [happly]; exact hle)
        with ⟨hself, hother, hlow, hhigh⟩
      rw [happly] at hlow hhigh
      rw [applyWrites_cons]
      refine ⟨?_, ?_, hlow, hhigh⟩
      · rw [hself, hsame]
        simp [editedSlot, editSlot, hedit]
      · intro other hne
        rw [hother other hne, hsame]
    | some f =>
      rw [hedit] at happly
      have hsame := Store.archive_congr happly
      have hlength := Store.length_updateArchive (f := f) hpos hle
      have hgrown : (write.apply faults plan st).archives.length =
          max st.archives.length plan.index := by
        rw [happly]
        exact hlength
      rcases ih (write.apply faults plan st) (by omega) with ⟨hself, hother, hlow, hhigh⟩
      rw [applyWrites_cons]
      refine ⟨?_, ?_, by omega, by omega⟩
      · rw [hself, hsame, Store.archive_updateArchive_self hpos hle]
        simp [editedSlot, editSlot, hedit]
      · intro other hne
        rw [hother other hne, hsame,
          Store.archive_updateArchive_other hpos hle hne]

/-!
# The directory of a new archive
-/

theorem editedSlot_cons (rest : List CommitWrite) (slot : Option Archive) :
    editedSlot faults plan (write :: rest) slot =
      editedSlot faults plan rest (write.editSlot faults plan slot) := rfl

theorem editedSlot_inv (Good : Archive -> Prop) (hempty : Good empty)
    (hedit : forall write f a, edit faults plan write = some f ->
      Good a -> Good (f a))
    (writes : List CommitWrite) {slot : Option Archive}
    (hslot : forall a, slot = some a -> Good a) {a : Archive}
    (h : editedSlot faults plan writes slot = some a) : Good a := by
  induction writes generalizing slot with
  | nil => exact hslot a h
  | cons write rest ih =>
    rw [editedSlot_cons] at h
    apply ih _ h
    intro b hb
    unfold editSlot at hb
    cases hf : write.edit faults plan with
    | none =>
      rw [hf] at hb
      exact hslot b hb
    | some f =>
      rw [hf] at hb
      cases hb
      apply hedit write f _ hf
      cases slot with
      | none => exact hempty
      | some b => exact hslot b rfl

/-- Neither marker of an end, and no marker of Phase 1 but the one of the plan or
one that says ready and names no other task. -/
structure Unended (plan : CommitPlan) (a : Archive) : Prop where
  done : a.done = false
  failed : a.failed = none
  phase1 : forall marker, a.phase1 = some marker ->
    marker = plan.marker ∨ (marker.ready = true ∧ forall task,
      marker.taskId = some task -> plan.marker.taskId = some task)
  completed : a.completedMemorySteps = []

variable {writes : List CommitWrite}

theorem editedSlot_unended {a : Archive}
    (h : editedSlot faults plan writes none = some a) : Unended plan a := by
  apply editedSlot_inv (Unended plan) _ _ writes _ h
  · refine ⟨rfl, rfl, ?_, rfl⟩
    intro marker hmarker
    cases hmarker
  · intro write f a hf ha
    cases write with
    | phase1Marker =>
      cases hf
      refine ⟨ha.done, ha.failed, ?_, ha.completed⟩
      intro marker hmarker
      cases hmarker
      exact .inl rfl
    | archiveRaw =>
      cases hf
      exact ⟨ha.done, ha.failed, ha.phase1, ha.completed⟩
    | retentionPlan =>
      rw [edit] at hf
      split at hf
      · cases hf
        refine ⟨ha.done, ha.failed, ?_, ha.completed⟩
        intro marker hmarker
        cases hmarker
      · cases hf
    | readyMarker =>
      cases hf
      refine ⟨ha.done, ha.failed, ?_, ha.completed⟩
      intro marker hmarker
      cases hmarker
      refine .inr ⟨rfl, ?_⟩
      intro task htask
      dsimp only at htask
      split at htask
      · cases htask
      cases hphase1 : a.phase1 with
      | none =>
        rw [hphase1] at htask
        cases htask
      | some read =>
        rw [hphase1] at htask
        rcases ha.phase1 read hphase1 with hplan | ⟨_, hready⟩
        · rw [← hplan]
          exact htask
        · exact hready task htask
    | _ => cases hf
  · intro b hb
    cases hb

/-- The raw messages of the archive, once written, stay. -/
theorem editedSlot_raw {slot : Option Archive} :
    (editedSlot faults plan writes slot).bind raw =
      if .archiveRaw ∈ writes then some plan.archived
      else slot.bind raw := by
  induction writes generalizing slot with
  | nil => rfl
  | cons write rest ih =>
    have hslot : (write.editSlot faults plan slot).bind raw =
        if write = .archiveRaw then some plan.archived
        else slot.bind raw := by
      unfold editSlot
      cases write with
      | retentionPlan =>
        rw [edit]
        cases slot with
        | none => cases faults.archiveMetaUnreadable with
          | false => rfl
          | true => rfl
        | some a => cases faults.archiveMetaUnreadable with
          | false => rfl
          | true => rfl
      | _ =>
        cases slot with
        | none => rfl
        | some a => rfl
    rw [editedSlot_cons, ih, hslot]
    by_cases hrest : .archiveRaw ∈ rest
    · rw [if_pos hrest, if_pos (mem_cons_of_mem _ hrest)]
    rw [if_neg hrest]
    by_cases hwrite : write = .archiveRaw
    · rw [if_pos hwrite, hwrite, if_pos mem_cons_self]
    · rw [if_neg hwrite, if_neg]
      intro hmem
      rcases mem_cons.mp hmem with heq | hin
      · exact hwrite heq.symm
      · exact hrest hin

end Writes

/-!
# The order of the writes
-/

/-- The writes of a commit that follow the queue item. -/
def publishing : List CommitWrite :=
  [.root, .abstract, .overview,
    .sessionMeta, .readyMarker]

theorem idxOf_publishing (turnBudget : Bool) {write : CommitWrite}
    (h : write ∈ publishing) :
    write ∈ archiveWrites turnBudget ∧
      (archiveWrites turnBudget).idxOf .archiveRaw <
        (archiveWrites turnBudget).idxOf write ∧
      (archiveWrites turnBudget).idxOf .enqueue <
        (archiveWrites turnBudget).idxOf write := by
  revert write
  cases turnBudget with
  | false => decide
  | true => decide

theorem written_before {turnBudget : Bool} {written : Nat} {write : CommitWrite}
    (hwrite : write ∈ publishing)
    (h : write ∈ (archiveWrites turnBudget).take written) :
    .archiveRaw ∈ (archiveWrites turnBudget).take written ∧
      .enqueue ∈ (archiveWrites turnBudget).take written := by
  rcases idxOf_publishing turnBudget hwrite with ⟨hmem, hraw, hitem⟩
  have hlt := (mem_take_iff_idxOf_lt hmem).mp h
  have hin : .archiveRaw ∈ archiveWrites turnBudget ∧
      .enqueue ∈ archiveWrites turnBudget := by
    cases turnBudget with
    | false => decide
    | true => decide
  exact ⟨(mem_take_iff_idxOf_lt hin.1).mpr (lt_trans hraw hlt),
    (mem_take_iff_idxOf_lt hin.2).mpr (lt_trans hitem hlt)⟩

/-- The writes that a commit took before its end. -/
def CommitPlan.taken (plan : CommitPlan) (fate : Fate) : List CommitWrite :=
  plan.writes.take (fate.written plan)

section Commit

variable {faults : CommitFaults} {plan : CommitPlan} {fate : Fate} {st : Store}

theorem markFailed_archives (fate : Fate) (hpos : 0 < plan.index)
    (hle : plan.index ≤ st.archives.length + 1) :
    (forall other, other ≠ plan.index ->
        (markFailed plan fate st).archive other = st.archive other) ∧
      st.archives.length ≤ (markFailed plan fate st).archives.length ∧
      (markFailed plan fate st).archives.length ≤
        max st.archives.length plan.index ∧
      ((markFailed plan fate st).archive plan.index).bind raw =
        (st.archive plan.index).bind raw := by
  unfold markFailed
  split
  · split
    · refine ⟨?_, ?_, ?_, ?_⟩
      · intro other hother
        exact Store.archive_updateArchive_other hpos hle hother
      · rw [Store.length_updateArchive hpos hle]
        exact le_max_left _ _
      · rw [Store.length_updateArchive hpos hle]
      · rw [Store.archive_updateArchive_self hpos hle]
        cases st.archive plan.index with
        | none => rfl
        | some a => rfl
    · exact ⟨fun _ _ => rfl, le_refl _, le_max_left _ _, rfl⟩
  · exact ⟨fun _ _ => rfl, le_refl _, le_max_left _ _, rfl⟩

theorem commitStore_live :
    (commitStore faults plan fate st).live =
      if .root ∈ plan.taken fate then plan.retained else st.live := by
  unfold commitStore markFailed
  split
  · split
    · exact applyWrites_live _ _
    · exact applyWrites_live _ _
  · exact applyWrites_live _ _

theorem commitStore_sessionMeta :
    (commitStore faults plan fate st).sessionMeta =
      if .sessionMeta ∈ plan.taken fate then plan.sessionMeta
      else st.sessionMeta := by
  unfold commitStore markFailed
  split
  · split
    · exact applyWrites_sessionMeta _ _
    · exact applyWrites_sessionMeta _ _
  · exact applyWrites_sessionMeta _ _

theorem mem_commitStore_queue {item : QueueItem} :
    item ∈ (commitStore faults plan fate st).queue <->
      item ∈ st.queue ∨
        (.enqueue ∈ plan.taken fate ∧ item = plan.item) := by
  unfold commitStore markFailed
  split
  · split
    · exact mem_applyWrites_queue _ _ _
    · exact mem_applyWrites_queue _ _ _
  · exact mem_applyWrites_queue _ _ _

theorem commitStore_of_not_marked
    (h : forall written, fate ≠ .raised written true) :
    commitStore faults plan fate st =
      applyWrites faults plan (plan.taken fate)
        { st with nextTask := st.nextTask + 1 } := by
  unfold commitStore markFailed
  split
  · next written => exact absurd rfl (h written)
  · rfl

theorem commitStore_of_skip (h : plan.archives = false) :
    commitStore faults plan fate st =
      applyWrites faults plan (plan.taken fate)
        { st with nextTask := st.nextTask + 1 } := by
  unfold commitStore markFailed
  rw [h]
  split
  · rfl
  · rfl

/-- A commit touches no archive but its own, which is the next one. -/
theorem commitStore_archives (faults : CommitFaults) (fate : Fate)
    (hindex : plan.index = st.archives.length + 1) :
    (forall other, other ≠ plan.index ->
        (commitStore faults plan fate st).archive other = st.archive other) ∧
      st.archives.length ≤ (commitStore faults plan fate st).archives.length ∧
      (commitStore faults plan fate st).archives.length ≤ st.archives.length + 1 ∧
      ((commitStore faults plan fate st).archive plan.index).bind raw =
        (if .archiveRaw ∈ plan.taken fate then some plan.archived
          else none) := by
  have hpos : 0 < plan.index := by
    rw [hindex]
    exact succ_pos _
  have hnone : st.archive plan.index = none :=
    Store.archive_eq_none_of_lt (by rw [hindex]; exact lt_succ_self _)
  rcases applyWrites_archive faults plan (plan.taken fate)
    { st with nextTask := st.nextTask + 1 } hpos (le_of_eq hindex) with
    ⟨hself, hother, hlow, hhigh⟩
  have hraw : ((applyWrites faults plan (plan.taken fate)
      { st with nextTask := st.nextTask + 1 }).archive plan.index).bind raw =
      if .archiveRaw ∈ plan.taken fate then some plan.archived
      else none := by
    rw [hself, editedSlot_raw]
    change (if _ then _ else (st.archive plan.index).bind raw) = _
    rw [hnone]
    rfl
  change st.archives.length ≤ _ at hlow
  change _ ≤ max st.archives.length plan.index at hhigh
  have hcommit : commitStore faults plan fate st = markFailed plan fate
      (applyWrites faults plan (plan.taken fate)
        { st with nextTask := st.nextTask + 1 }) := rfl
  rw [hcommit]
  generalize applyWrites faults plan (plan.taken fate)
    { st with nextTask := st.nextTask + 1 } = st' at *
  rcases markFailed_archives fate hpos
    (le_trans (le_of_eq hindex) (succ_le_succ hlow)) with
    ⟨hmother, hmlow, hmhigh, hmraw⟩
  refine ⟨?_, ?_, ?_, ?_⟩
  · intro other hne
    rw [hmother other hne]
    exact hother other hne
  · exact le_trans hlow hmlow
  · omega
  · exact hmraw.trans hraw

end Commit

theorem ready_written {turnBudget : Bool} {written : Nat}
    (h : .readyMarker ∈ (archiveWrites turnBudget).take written) :
    (archiveWrites turnBudget).take written = archiveWrites turnBudget := by
  have hready : .readyMarker ∈ archiveWrites turnBudget := mem_of_mem_take h
  have hlt := (mem_take_iff_idxOf_lt hready).mp h
  apply take_of_length_le
  apply le_trans _ (succ_le_of_lt hlt)
  cases turnBudget with
  | false => decide
  | true => decide

end Session
end OpenViking
