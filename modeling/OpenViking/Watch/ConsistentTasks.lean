import OpenViking.Watch.WatchManager

/-!
# Consistent tasks

The index is the map from targets to tasks, targets are spelled in one form, and the next
times are those of the active tasks.
-/

namespace OpenViking
namespace Watch

open WatchTask

open Paths (Str)

/-!
# Keys
-/

/-- The key under which a URI of an account stands in the index. -/
def IsKey (accountId : Str) (uri : Option Str) (key : TargetKey) : Prop :=
  key.1 = accountId ∧ given? uri = some key.2

section Index

variable {uriToTask : TargetKey -> Option Nat} {accountId : Str} {uri : Option Str}
  {key : TargetKey}

theorem enter_of_isKey (h : IsKey accountId uri key) (taskId : Nat) :
    enter uriToTask accountId uri taskId key = some taskId := by
  rcases h with ⟨haccount, huri⟩
  unfold enter
  rw [huri, ← haccount]
  exact Function.update_self _ _ _

theorem enter_of_not_isKey (h : ¬ IsKey accountId uri key) (taskId : Nat) :
    enter uriToTask accountId uri taskId key = uriToTask key := by
  unfold enter
  cases huri : given? uri with
  | none => rfl
  | some target =>
    apply Function.update_of_ne
    intro heq
    rw [heq] at h
    exact h ⟨rfl, huri⟩

theorem leave_of_isKey (h : IsKey accountId uri key) :
    leave uriToTask accountId uri key = none := by
  rcases h with ⟨haccount, huri⟩
  unfold leave
  rw [huri, ← haccount]
  exact Function.update_self _ _ _

theorem leave_of_not_isKey (h : ¬ IsKey accountId uri key) :
    leave uriToTask accountId uri key = uriToTask key := by
  unfold leave
  cases huri : given? uri with
  | none => rfl
  | some target =>
    apply Function.update_of_ne
    intro heq
    rw [heq] at h
    exact h ⟨rfl, huri⟩

end Index

/-!
# The invariant
-/

/-- A URI without a slash at its end. -/
def Normalized (uri : Option Str) : Prop :=
  forall target : Str, given? uri = some target -> normalizeUri target = target

def Holds (tasks : List WatchTask) (key : TargetKey) (taskId : Nat) : Prop :=
  exists task : WatchTask, task ∈ tasks ∧ task.taskId = taskId ∧
    IsKey task.accountId task.toUri key

structure TasksConsistent (tasks : List WatchTask) : Prop where
  ids : (tasks.map WatchTask.taskId).Nodup
  distinct : forall task other : WatchTask, task ∈ tasks -> other ∈ tasks ->
    forall key : TargetKey, IsKey task.accountId task.toUri key ->
      IsKey other.accountId other.toUri key -> task = other
  normalized : forall task : WatchTask, task ∈ tasks -> Normalized task.toUri
  scheduled : forall task : WatchTask, task ∈ tasks -> task.Scheduled

def IndexExact (manager : Manager) : Prop :=
  forall (key : TargetKey) (taskId : Nat),
    manager.uriToTask key = some taskId <-> Holds manager.tasks key taskId

structure Consistent (manager : Manager) : Prop where
  tasks : TasksConsistent manager.tasks
  index : IndexExact manager

section Tasks

variable {tasks : List WatchTask} {task other : WatchTask}

theorem eq_of_id (hids : (tasks.map taskId).Nodup) (htask : task ∈ tasks)
    (hother : other ∈ tasks) (h : task.taskId = other.taskId) : task = other :=
  List.inj_on_of_nodup_map hids htask hother h

theorem hasId_iff {taskId : Nat} : hasId taskId task = true <-> task.taskId = taskId :=
  decide_eq_true_iff

theorem get_some_iff (hids : (tasks.map taskId).Nodup) {taskId : Nat} :
    tasks.find? (hasId taskId) = some task <-> task ∈ tasks ∧ task.taskId = taskId := by
  constructor
  · intro h
    exact ⟨List.mem_of_find?_eq_some h, hasId_iff.mp (List.find?_some h)⟩
  rintro ⟨hmem, hid⟩
  cases hfind : tasks.find? (hasId taskId) with
  | none =>
    have hnot := List.find?_eq_none.mp hfind task hmem
    exact absurd (hasId_iff.mpr hid) hnot
  | some found =>
    have hfound := List.mem_of_find?_eq_some hfind
    have hfoundId := hasId_iff.mp (List.find?_some hfind)
    rw [eq_of_id hids hfound hmem (hfoundId.trans hid.symm)]

section

variable {manager : Manager} (hids : (manager.tasks.map WatchTask.taskId).Nodup)
    (hindex : IndexExact manager)

include hids hindex

theorem distinct_of_index
    (htask : task ∈ manager.tasks) (hother : other ∈ manager.tasks) {key : TargetKey}
    (hkey : IsKey task.accountId task.toUri key)
    (hotherKey : IsKey other.accountId other.toUri key) : task = other := by
  have hfirst := (hindex key task.taskId).mpr ⟨task, htask, rfl, hkey⟩
  have hsecond := (hindex key other.taskId).mpr ⟨other, hother, rfl, hotherKey⟩
  rw [hfirst] at hsecond
  exact eq_of_id hids htask hother (Option.some.inj hsecond)

theorem Consistent.of_index
    (hnormalized : forall task : WatchTask, task ∈ manager.tasks ->
      Normalized task.toUri)
    (hscheduled : forall task : WatchTask, task ∈ manager.tasks -> task.Scheduled) :
    Consistent manager where
  tasks :=
    { ids := hids
      distinct := fun _ _ htask hother _ hkey hotherKey =>
        distinct_of_index hids hindex htask hother hkey hotherKey
      normalized := hnormalized
      scheduled := hscheduled }
  index := hindex

end

/-!
# Changed lists
-/

variable {change : WatchTask -> WatchTask} {selected : WatchTask -> Bool}

theorem ids_updateWhere
    (hchange : forall task : WatchTask, task ∈ tasks -> selected task = true ->
      (change task).taskId = task.taskId) :
    (Rows.updateWhere selected change tasks).map taskId =
      tasks.map taskId := by
  rw [Rows.updateWhere, List.map_map]
  apply List.map_congr_left
  intro task hmem
  change (if selected task then change task else task).taskId = task.taskId
  split
  · rename_i hselected
    exact hchange task hmem hselected
  · rfl

/-- A change that keeps ids, accounts and targets keeps the keys. -/
theorem holds_updateWhere
    (hchange : forall task : WatchTask, task ∈ tasks -> selected task = true ->
      (change task).taskId = task.taskId ∧ (change task).accountId = task.accountId ∧
        (change task).toUri = task.toUri) (key : TargetKey) (taskId : Nat) :
    Holds (Rows.updateWhere selected change tasks) key taskId <->
      Holds tasks key taskId := by
  have hsame : forall task : WatchTask, task ∈ tasks ->
      (if selected task then change task else task).taskId = task.taskId ∧
      (if selected task then change task else task).accountId = task.accountId ∧
      (if selected task then change task else task).toUri = task.toUri := by
    intro task hmem
    split
    · rename_i hselected
      exact hchange task hmem hselected
    · exact ⟨rfl, rfl, rfl⟩
  constructor
  · rintro ⟨changed, hmem, hid, hkey⟩
    rcases Rows.mem_updateWhere.mp hmem with ⟨old, hold, heq⟩
    rcases hsame old hold with ⟨hsameId, hsameAccount, hsameUri⟩
    rw [heq] at hid hkey
    rw [hsameId] at hid
    rw [hsameAccount, hsameUri] at hkey
    exact ⟨old, hold, hid, hkey⟩
  · rintro ⟨old, hold, hid, hkey⟩
    rcases hsame old hold with ⟨hsameId, hsameAccount, hsameUri⟩
    refine ⟨_, Rows.mem_updateWhere.mpr ⟨old, hold, rfl⟩, ?_, ?_⟩
    · rw [hsameId]
      exact hid
    · rw [hsameAccount, hsameUri]
      exact hkey

theorem mem_putTask {changed : WatchTask} :
    other ∈ putTask changed tasks <->
      (other = changed ∧ exists old, old ∈ tasks ∧ old.taskId = changed.taskId) ∨
        (other ∈ tasks ∧ other.taskId ≠ changed.taskId) := by
  unfold putTask
  rw [Rows.mem_updateWhere]
  constructor
  · rintro ⟨old, hold, heq⟩
    split at heq
    · rename_i hid
      exact .inl ⟨heq, old, hold, hasId_iff.mp hid⟩
    · rename_i hid
      rw [heq]
      exact .inr ⟨hold, fun hsame => hid (hasId_iff.mpr hsame)⟩
  · rintro (⟨heq, old, hold, hid⟩ | ⟨hmem, hne⟩)
    · refine ⟨old, hold, ?_⟩
      rw [if_pos (hasId_iff.mpr hid), heq]
    · refine ⟨other, hmem, ?_⟩
      rw [if_neg (fun hid => hne (hasId_iff.mp hid))]

theorem ids_putTask (changed : WatchTask) :
    (putTask changed tasks).map taskId = tasks.map taskId :=
  ids_updateWhere fun _ _ hid => (hasId_iff.mp hid).symm

theorem forall_putTask {p : WatchTask -> Prop} {changed : WatchTask}
    (hchanged : p changed) (h : forall task : WatchTask, task ∈ tasks -> p task) :
    forall task : WatchTask, task ∈ putTask changed tasks -> p task := by
  intro task hmem
  rcases mem_putTask.mp hmem with ⟨heq, _⟩ | ⟨hold, _⟩
  · rw [heq]
    exact hchanged
  · exact h task hold

theorem forall_updateWhere {p : WatchTask -> Prop}
    (hchange : forall task : WatchTask, task ∈ tasks -> selected task = true ->
      p (change task)) (h : forall task : WatchTask, task ∈ tasks -> p task) :
    forall task : WatchTask, task ∈ Rows.updateWhere selected change tasks -> p task := by
  apply Rows.forall_updateWhere
  intro old hold
  split
  · rename_i hselected
    exact hchange old hold hselected
  · exact h old hold

end Tasks

end Watch
end OpenViking
