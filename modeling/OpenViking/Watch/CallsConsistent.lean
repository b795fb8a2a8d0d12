import OpenViking.Watch.WatchRun

/-!
# What a call keeps

A proper call leaves the tasks alone when it raises, and leaves them consistent when it
goes on to save.
-/

namespace OpenViking
namespace Watch

open List Option WatchTask

open Paths (Str)

/-!
# One task
-/

/-- Same id, account and interval bookkeeping, with the target the changes name. -/
structure Carries (task : WatchTask) (toUri : Option Str) (changed : WatchTask) :
    Prop where
  taskId : changed.taskId = task.taskId
  accountId : changed.accountId = task.accountId
  toUri : changed.toUri = toUri.or task.toUri

theorem reschedule_eq {task : WatchTask} {next : Rat}
    (h : task.calculateNextExecutionTime = some next) :
    task.reschedule = (task.setNext (some next), none) := by
  unfold reschedule
  rw [h]

theorem nonPositive_of_positive {interval : Interval} (h : interval.positive = true) :
    interval.nonPositive = false := by
  cases interval with
  | minutes count => exact decide_eq_false (not_le.mpr (of_decide_eq_true h))
  | infinite negative =>
    change (!negative) = true at h
    change negative = false
    rw [Bool.not_eq_true'] at h
    exact h
  | nan => cases h

section Update

variable {task : WatchTask} {changes : TaskChanges}

theorem schedule_of_interval (task : WatchTask) {interval : Interval}
    (hinterval : changes.watchInterval = some interval)
    (hactive : task.isActive = true -> task.watchInterval.positive = true ∧
      task.calculateNextExecutionTime ≠ none) :
    exists next : Option Rat, task.schedule changes = (task.setNext next, none) ∧
      (task.setNext next).Scheduled := by
  unfold schedule
  rw [hinterval]
  dsimp only
  cases htask : task.isActive with
  | false => exact ⟨none, rfl, scheduled_setNext_none htask⟩
  | true =>
    rcases hactive htask with ⟨hpositive, hnext⟩
    rw [hpositive, Bool.and_self, if_pos rfl]
    obtain ⟨next, hnext⟩ := ne_none_iff_exists'.mp hnext
    exact ⟨some next, reschedule_eq hnext,
      scheduled_setNext htask hpositive next⟩

/-- An update that names no interval. -/
theorem schedule_of_activation (task : WatchTask)
    (hinterval : changes.watchInterval = none)
    (hactive : task.isActive = true -> changes.isActive ≠ none ->
      task.watchInterval.nonPositive = false ∧
        (task.nextExecutionTime = none -> task.calculateNextExecutionTime ≠ none) ∧
        (task.nextExecutionTime ≠ none -> task.watchInterval.positive = true))
    (hscheduled : changes.isActive = none -> task.Scheduled) :
    exists next : Option Rat, task.schedule changes = (task.setNext next, none) ∧
      (task.setNext next).Scheduled := by
  unfold schedule
  rw [hinterval]
  cases hchange : changes.isActive with
  | none => exact ⟨task.nextExecutionTime, rfl, hscheduled hchange⟩
  | some active =>
    have hsome : changes.isActive ≠ none := by
      rw [hchange]
      exact some_ne_none active
    dsimp only
    cases htask : task.isActive with
    | false => exact ⟨none, rfl, scheduled_setNext_none htask⟩
    | true =>
      rcases hactive htask hsome with ⟨hnot, hcalculated, hpositive⟩
      rw [hnot, if_pos rfl, if_neg Bool.false_ne_true]
      cases hnext : task.nextExecutionTime with
      | some next =>
        have hsame : task = task.setNext (some next) := by
          unfold setNext
          rw [← hnext]
        have hpositive' := hpositive (by
          rw [hnext]
          exact some_ne_none next)
        exact ⟨some next, congrArg (fun same => (same, none)) hsame,
          scheduled_setNext htask hpositive' next⟩
      | none =>
        obtain ⟨next, hcalc⟩ := ne_none_iff_exists'.mp (hcalculated hnext)
        exact ⟨some next, reschedule_eq hcalc, scheduled_setNext htask
            (Interval.positive_of_calculated hcalc hnot) next⟩

/-- A fitting update succeeds and leaves a scheduled task. -/
theorem update_fits (hscheduled : task.Scheduled) (hfit : ChangesFit task changes) :
    exists changed : WatchTask, task.update changes = (changed, none) ∧
      Carries task changes.toUri changed ∧ changed.Scheduled := by
  unfold update
  unfold ChangesFit at hfit
  cases hinterval : changes.watchInterval with
  | some interval =>
    rw [hinterval] at hfit
    dsimp only at hfit ⊢
    cases hnot : interval.nonPositive with
    | true =>
      rw [hnot, if_pos rfl] at hfit
      rw [if_pos rfl, if_neg hfit]
      obtain ⟨next, heq, hnext⟩ := schedule_of_interval
        (({ (task.setSource changes).deactivate with watchInterval := interval } :
          WatchTask).setProcessing changes) hinterval (by
        intro hactive
        change changes.isActive.getD false = true at hactive
        cases hchange : changes.isActive with
        | none =>
          rw [hchange] at hactive
          cases hactive
        | some active =>
          rw [hchange] at hactive
          change active = true at hactive
          rw [hactive] at hchange
          exact absurd hchange hfit)
      exact ⟨_, heq, ⟨rfl, rfl, rfl⟩, hnext⟩
    | false =>
      rw [hnot, if_neg Bool.false_ne_true] at hfit
      rw [if_neg Bool.false_ne_true]
      obtain ⟨next, heq, hnext⟩ := schedule_of_interval
        (({ task.setSource changes with watchInterval := interval } :
          WatchTask).setProcessing changes) hinterval hfit
      exact ⟨_, heq, ⟨rfl, rfl, rfl⟩, hnext⟩
  | none =>
    rw [hinterval] at hfit
    dsimp only at hfit ⊢
    obtain ⟨next, heq, hnext⟩ := schedule_of_activation
      ((task.setSource changes).setProcessing changes) hinterval (by
      intro hactive hsome
      change changes.isActive.getD task.isActive = true at hactive
      obtain ⟨active, hchange⟩ := ne_none_iff_exists'.mp hsome
      rw [hchange] at hactive
      change active = true at hactive
      rw [hactive] at hchange
      rcases hfit hchange with ⟨hnot, hcalculated⟩
      refine ⟨hnot, hcalculated, ?_⟩
      intro hnext
      cases hbefore : task.isActive with
      | true => exact (hscheduled.active hbefore).1
      | false => exact absurd (hscheduled.inactive hbefore) hnext) (by
      intro hnone
      constructor
      · intro hactive
        change changes.isActive.getD task.isActive = true at hactive
        rw [hnone] at hactive
        exact hscheduled.active hactive
      · intro hinactive
        change changes.isActive.getD task.isActive = false at hinactive
        rw [hnone] at hinactive
        exact hscheduled.inactive hinactive)
    exact ⟨_, heq, ⟨rfl, rfl, rfl⟩, hnext⟩

end Update

/-!
# New and updated tasks
-/

section Calls

variable {manager : Manager}

theorem not_conflict {toUri : Option Str} {accountId : Str} {excluded : Option Nat}
    (h : manager.checkUriConflict toUri accountId excluded = false) {key : TargetKey}
    (hkey : IsKey accountId toUri key) {existing : Nat}
    (hexisting : manager.uriToTask key = some existing) : excluded = some existing := by
  rcases hkey with ⟨haccount, huri⟩
  unfold Manager.checkUriConflict at h
  rw [huri] at h
  dsimp only at h
  rw [← haccount, Prod.mk.eta, hexisting] at h
  exact not_not.mp (of_decide_eq_false h)

/-- A new task whose target is free. -/
theorem consistent_append (h : Consistent manager) {task : WatchTask}
    (hfresh : forall other : WatchTask, other ∈ manager.tasks ->
      other.taskId ≠ task.taskId)
    (hfree : forall key : TargetKey, IsKey task.accountId task.toUri key ->
      manager.uriToTask key = none)
    (hnormalized : Normalized task.toUri) (hscheduled : task.Scheduled) :
    Consistent
      { tasks := manager.tasks ++ [task]
        uriToTask := enter manager.uriToTask task.accountId task.toUri task.taskId } := by
  have hforall : forall {p : WatchTask -> Prop}, p task ->
      (forall other : WatchTask, other ∈ manager.tasks -> p other) ->
      forall other : WatchTask, other ∈ manager.tasks ++ [task] -> p other := by
    intro p htask hothers other hmem
    rcases mem_append.mp hmem with hold | hnew
    · exact hothers other hold
    · rw [mem_singleton.mp hnew]
      exact htask
  apply Consistent.of_index
  · change ((manager.tasks ++ [task]).map taskId).Nodup
    rw [map_append, nodup_append]
    refine ⟨h.tasks.ids, nodup_singleton _, ?_⟩
    intro a ha b hb
    rcases mem_map.mp ha with ⟨other, hother, rfl⟩
    rw [mem_singleton.mp hb]
    exact hfresh other hother
  · intro key taskId
    change enter manager.uriToTask task.accountId task.toUri task.taskId key = some taskId
      <-> Holds (manager.tasks ++ [task]) key taskId
    rcases Classical.em (IsKey task.accountId task.toUri key) with hkey | hkey
    · rw [enter_of_isKey hkey]
      constructor
      · intro heq
        exact ⟨task, mem_append_right _ mem_cons_self, some.inj heq, hkey⟩
      · rintro ⟨other, hmem, hid, hotherKey⟩
        rcases mem_append.mp hmem with hold | hnew
        · have hcontra := (h.index key other.taskId).mpr ⟨other, hold, rfl, hotherKey⟩
          rw [hfree key hkey] at hcontra
          cases hcontra
        · rw [← mem_singleton.mp hnew, hid]
    · rw [enter_of_not_isKey hkey, h.index key taskId]
      constructor
      · rintro ⟨other, hmem, hid, hotherKey⟩
        exact ⟨other, mem_append_left _ hmem, hid, hotherKey⟩
      · rintro ⟨other, hmem, hid, hotherKey⟩
        rcases mem_append.mp hmem with hold | hnew
        · exact ⟨other, hold, hid, hotherKey⟩
        · rw [mem_singleton.mp hnew] at hotherKey
          exact absurd hotherKey hkey
  · exact hforall hnormalized h.tasks.normalized
  · exact hforall hscheduled h.tasks.scheduled

theorem consistent_updateWhere (h : Consistent manager) {selected : WatchTask -> Bool}
    {change : WatchTask -> WatchTask}
    (hchange : forall task : WatchTask, task ∈ manager.tasks -> selected task = true ->
      (change task).taskId = task.taskId ∧ (change task).accountId = task.accountId ∧
        (change task).toUri = task.toUri)
    (hscheduled : forall task : WatchTask, task ∈ manager.tasks ->
      selected task = true -> (change task).Scheduled) :
    Consistent
      { manager with tasks := Rows.updateWhere selected change manager.tasks } := by
  apply Consistent.of_index
  · rw [ids_updateWhere fun task hmem hselected => (hchange task hmem hselected).1]
    exact h.tasks.ids
  · intro key taskId
    rw [holds_updateWhere hchange]
    exact h.index key taskId
  · apply forall_updateWhere
    · intro task hmem hselected
      rw [(hchange task hmem hselected).2.2]
      exact h.tasks.normalized task hmem
    · exact h.tasks.normalized
  · exact forall_updateWhere hscheduled h.tasks.scheduled

theorem consistent_putTask (h : Consistent manager) {task changed : WatchTask}
    (hmem : task ∈ manager.tasks) (hcarries : Carries task none changed)
    (hscheduled : changed.Scheduled) :
    Consistent { manager with tasks := putTask changed manager.tasks } := by
  have hsame : forall other : WatchTask, other ∈ manager.tasks ->
      hasId changed.taskId other = true -> other = task := by
    intro other hother hid
    exact eq_of_id h.tasks.ids hother hmem ((hasId_iff.mp hid).trans hcarries.taskId)
  apply consistent_updateWhere h
  · intro other hother hid
    rw [hsame other hother hid]
    exact ⟨hcarries.taskId, hcarries.accountId, hcarries.toUri⟩
  · exact fun _ _ _ => hscheduled

section Update

variable {task changed : WatchTask} {toUri : Option Str}

theorem updateIndex_of_isKey (h : Consistent manager) (hmem : task ∈ manager.tasks)
    (hcarries : Carries task toUri changed) {key : TargetKey}
    (hkey : IsKey changed.accountId changed.toUri key) :
    manager.updateIndex task toUri key = some task.taskId := by
  rw [hcarries.accountId, hcarries.toUri] at hkey
  cases toUri with
  | none => exact (h.index key task.taskId).mpr ⟨task, hmem, rfl, hkey⟩
  | some target => exact enter_of_isKey hkey task.taskId

theorem updateIndex_of_not_isKey (hcarries : Carries task toUri changed)
    {key : TargetKey} (hkey : ¬ IsKey changed.accountId changed.toUri key) :
    (IsKey task.accountId task.toUri key -> manager.updateIndex task toUri key = none) ∧
    (¬ IsKey task.accountId task.toUri key ->
      manager.updateIndex task toUri key = manager.uriToTask key) := by
  rw [hcarries.accountId, hcarries.toUri] at hkey
  cases toUri with
  | none => exact ⟨fun hold => absurd hold hkey, fun _ => rfl⟩
  | some target =>
    change ¬ IsKey task.accountId (some target) key at hkey
    unfold Manager.updateIndex
    dsimp only
    rw [enter_of_not_isKey hkey]
    split
    · exact ⟨fun hold => leave_of_isKey hold, fun hold => leave_of_not_isKey hold⟩
    rename_i hstays
    refine ⟨?_, fun _ => rfl⟩
    intro hold
    apply absurd _ hstays
    constructor
    · rw [hold.2]
      exact some_ne_none _
    · intro hsame
      rw [hsame] at hold
      exact hkey hold

section

variable (h : Consistent manager) (hmem : task ∈ manager.tasks)
    (hcarries : Carries task toUri changed)

include h hmem hcarries

theorem owner_of_key
    (hfree : manager.checkUriConflict toUri task.accountId (some task.taskId) = false)
    {key : TargetKey} (hkey : IsKey changed.accountId changed.toUri key) {existing : Nat}
    (hexisting : manager.uriToTask key = some existing) : existing = task.taskId := by
  rw [hcarries.accountId, hcarries.toUri] at hkey
  cases toUri with
  | none =>
    have hown := (h.index key task.taskId).mpr ⟨task, hmem, rfl, hkey⟩
    rw [hexisting] at hown
    exact some.inj hown
  | some target => exact (some.inj (not_conflict hfree hkey hexisting)).symm

/-- The index after a task has been given the target of an update. -/
theorem index_updateTask
    (hfree : manager.checkUriConflict toUri task.accountId (some task.taskId) = false) :
    IndexExact
      { tasks := putTask changed manager.tasks
        uriToTask := manager.updateIndex task toUri } := by
  have hother : forall {other : WatchTask} {key : TargetKey}, other ∈ manager.tasks ->
      IsKey other.accountId other.toUri key ->
      manager.uriToTask key = some other.taskId := fun hother hkey =>
    (h.index _ _).mpr ⟨_, hother, rfl, hkey⟩
  intro key taskId
  change manager.updateIndex task toUri key = some taskId <->
    Holds (putTask changed manager.tasks) key taskId
  rcases Classical.em (IsKey changed.accountId changed.toUri key) with hkey | hkey
  · rw [updateIndex_of_isKey h hmem hcarries hkey]
    constructor
    · intro heq
      rw [← some.inj heq, ← hcarries.taskId]
      have hput := mem_putTask.mpr (Or.inl ⟨rfl, task, hmem, hcarries.taskId.symm⟩)
      exact ⟨changed, hput, rfl, hkey⟩
    · rintro ⟨other, hput, hid, hotherKey⟩
      rcases mem_putTask.mp hput with ⟨heq, _⟩ | ⟨hold, hne⟩
      · rw [← hid, heq, hcarries.taskId]
      · have hown := owner_of_key h hmem hcarries hfree hkey (hother hold hotherKey)
        rw [hcarries.taskId] at hne
        exact absurd hown hne
  · rcases @updateIndex_of_not_isKey manager _ _ _ hcarries _ hkey with
      ⟨hleft, hstays⟩
    constructor
    · intro heq
      have hnot : ¬ IsKey task.accountId task.toUri key := by
        intro hold
        rw [hleft hold] at heq
        cases heq
      rw [hstays hnot] at heq
      rcases (h.index key taskId).mp heq with ⟨other, hold, hid, hotherKey⟩
      refine ⟨other, mem_putTask.mpr (Or.inr ⟨hold, ?_⟩), hid, hotherKey⟩
      rw [hcarries.taskId]
      intro hsame
      rw [eq_of_id h.tasks.ids hold hmem hsame] at hotherKey
      exact hnot hotherKey
    · rintro ⟨other, hput, hid, hotherKey⟩
      rcases mem_putTask.mp hput with ⟨heq, _⟩ | ⟨hold, hne⟩
      · rw [heq] at hotherKey
        exact absurd hotherKey hkey
      have hnot : ¬ IsKey task.accountId task.toUri key := by
        intro hown
        rw [hcarries.taskId] at hne
        have hsame := h.tasks.distinct other task hold hmem key hotherKey hown
        rw [hsame] at hne
        exact hne rfl
      rw [hstays hnot, ← hid]
      exact hother hold hotherKey

theorem consistent_updateTask (hscheduled : changed.Scheduled)
    (hnormalized : Normalized toUri)
    (hfree : manager.checkUriConflict toUri task.accountId (some task.taskId) = false) :
    Consistent
      { tasks := putTask changed manager.tasks
        uriToTask := manager.updateIndex task toUri } := by
  apply Consistent.of_index
  · rw [ids_putTask]
    exact h.tasks.ids
  · exact index_updateTask h hmem hcarries hfree
  · apply forall_putTask _ h.tasks.normalized
    rw [hcarries.toUri]
    cases toUri with
    | none => exact h.tasks.normalized task hmem
    | some target => exact hnormalized
  · exact forall_putTask hscheduled h.tasks.scheduled

end

end Update

/-- A deleted task takes its key with it. -/
theorem consistent_deleteTask (h : Consistent manager) {task : WatchTask}
    (hmem : task ∈ manager.tasks) :
    Consistent
      { tasks := Rows.deleteWhere (hasId task.taskId) manager.tasks
        uriToTask := leave manager.uriToTask task.accountId task.toUri } := by
  have hsub : (Rows.deleteWhere (hasId task.taskId) manager.tasks).Sublist
      manager.tasks := filter_sublist
  have hdeleted : forall {other : WatchTask},
      other ∈ Rows.deleteWhere (hasId task.taskId) manager.tasks <->
        other ∈ manager.tasks ∧ other.taskId ≠ task.taskId := by
    intro other
    rw [Rows.mem_deleteWhere]
    unfold hasId
    rw [decide_eq_false_iff_not]
  apply Consistent.of_index
  · exact h.tasks.ids.sublist (hsub.map taskId)
  · intro key taskId
    change leave manager.uriToTask task.accountId task.toUri key = some taskId <->
      Holds (Rows.deleteWhere (hasId task.taskId) manager.tasks) key taskId
    rcases Classical.em (IsKey task.accountId task.toUri key) with hkey | hkey
    · rw [leave_of_isKey hkey]
      constructor
      · nofun
      · rintro ⟨other, hother, _, hotherKey⟩
        rcases hdeleted.mp hother with ⟨hold, hne⟩
        rw [h.tasks.distinct other task hold hmem key hotherKey hkey] at hne
        exact absurd rfl hne
    · rw [leave_of_not_isKey hkey, h.index key taskId]
      constructor
      · rintro ⟨other, hold, hid, hotherKey⟩
        refine ⟨other, hdeleted.mpr ⟨hold, ?_⟩, hid, hotherKey⟩
        intro hsame
        rw [eq_of_id h.tasks.ids hold hmem hsame] at hotherKey
        exact hkey hotherKey
      · rintro ⟨other, hother, hid, hotherKey⟩
        exact ⟨other, (hdeleted.mp hother).1, hid, hotherKey⟩
  · exact fun other hother => h.tasks.normalized other (hdeleted.mp hother).1
  · exact fun other hother => h.tasks.scheduled other (hdeleted.mp hother).1

end Calls

end Watch
end OpenViking
