import OpenViking.Watch.CallsConsistent

/-!
# Prefix rewrites

A rewrite moves the tasks under a root to another one, each to a target of its own.
-/

namespace OpenViking
namespace Watch

open Function List Rows

open Paths (Str)
open Manager (under movedTarget)

/-!
# Moved URIs
-/

theorem normalizeUri_idem (uri : Str) :
    normalizeUri (normalizeUri uri) = normalizeUri uri := by
  unfold normalizeUri Segments.stripRight
  exact rdropWhile_idempotent _ _

theorem normalizeUri_eq_self_iff {uri : Str} :
    normalizeUri uri = uri <-> forall h : uri ≠ [], uri.getLast h ≠ '/' := by
  unfold normalizeUri Segments.stripRight
  rw [rdropWhile_eq_self_iff]
  constructor
  · intro h hne hlast
    exact h hne (decide_eq_true hlast)
  · intro h hne hlast
    exact h hne (of_decide_eq_true hlast)

theorem rewriteUriPrefix_of_matches {uri oldUri : Str}
    (hmatches : uriMatchesPrefix (some uri) oldUri = true)
    (hnormalized : normalizeUri uri = uri) (newUri : Str) :
    exists rest : Str, uri = normalizeUri oldUri ++ rest ∧
      rewriteUriPrefix uri oldUri newUri = normalizeUri newUri ++ rest := by
  unfold uriMatchesPrefix at hmatches
  unfold rewriteUriPrefix
  split at hmatches
  · cases hmatches
  rename_i chars hgiven
  have hchars : chars = uri := by
    rcases Option.filter_eq_some_iff.mp hgiven with ⟨heq, _⟩
    exact (Option.some.inj heq).symm
  rw [hchars, hnormalized] at hmatches
  rcases of_decide_eq_true hmatches with heq | ⟨more, hmore⟩
  · refine ⟨[], ?_, ?_⟩
    · rw [append_nil]
      exact heq
    · rw [if_pos heq, append_nil]
  rw [append_assoc] at hmore
  refine ⟨['/'] ++ more, hmore.symm, ?_⟩
  have hne : uri ≠ normalizeUri oldUri := by
    intro heq
    have hlength := congrArg length hmore
    rw [heq, length_append] at hlength
    have hpos : 0 < (['/'] ++ more).length := Nat.succ_pos _
    omega
  rw [if_neg hne, ← hmore, drop_left]

theorem normalizeUri_moved {uri oldRoot newUri rest : Str}
    (huri : uri = oldRoot ++ rest) (hnormalized : normalizeUri uri = uri) :
    normalizeUri (normalizeUri newUri ++ rest) = normalizeUri newUri ++ rest := by
  rcases eq_or_ne rest [] with hnil | hne
  · rw [hnil, append_nil]
    exact normalizeUri_idem newUri
  rw [normalizeUri_eq_self_iff]
  intro happend
  rw [getLast_append_of_ne_nil _ hne]
  have huriNe : uri ≠ [] := by
    rw [huri]
    exact append_ne_nil_of_right_ne_nil _ hne
  have hlast := normalizeUri_eq_self_iff.mp hnormalized huriNe
  have heq : uri.getLast huriNe = rest.getLast hne := by
    have hsame : uri.getLast huriNe = (oldRoot ++ rest).getLast (huri ▸ huriNe) := by
      congr 1
    rw [hsame, getLast_append_of_ne_nil _ hne]
  rw [← heq]
  exact hlast

/-!
# Loops over the index
-/

section Loops

variable {accountId : Str} {moving : List WatchTask} {index : TargetKey -> Option Nat}
  {key : TargetKey}

theorem foldl_leave_of_isKey
    (h : exists task : WatchTask, task ∈ moving ∧ IsKey accountId task.toUri key) :
    moving.foldl (fun index task => leave index accountId task.toUri) index key =
      none := by
  induction moving using reverseRecOn with
  | nil =>
    rcases h with ⟨task, hmem, _⟩
    cases hmem
  | append_singleton moving last ih =>
    rw [foldl_append]
    change leave _ accountId last.toUri key = none
    rcases Classical.em (IsKey accountId last.toUri key) with hlast | hlast
    · exact leave_of_isKey hlast
    · rw [leave_of_not_isKey hlast]
      apply ih
      rcases h with ⟨task, hmem, hkey⟩
      rcases mem_append.mp hmem with hold | hnew
      · exact ⟨task, hold, hkey⟩
      · rw [mem_singleton.mp hnew] at hkey
        exact absurd hkey hlast

theorem foldl_leave_of_not_isKey
    (h : forall task : WatchTask, task ∈ moving -> ¬ IsKey accountId task.toUri key) :
    moving.foldl (fun index task => leave index accountId task.toUri) index key =
      index key := by
  induction moving generalizing index with
  | nil => rfl
  | cons task rest ih =>
    rw [foldl_cons, ih fun other hother => h other (mem_cons_of_mem task hother)]
    exact leave_of_not_isKey (h task mem_cons_self)

variable {target : WatchTask -> Str}

theorem foldl_move_of_target {taskId : Nat}
    (h : exists task : WatchTask, task ∈ moving ∧ (accountId, target task) = key)
    (hsame : forall task : WatchTask, task ∈ moving -> (accountId, target task) = key ->
      task.taskId = taskId) :
    moving.foldl (fun index task =>
      update index (accountId, target task) (some task.taskId)) index key =
        some taskId := by
  induction moving using reverseRecOn with
  | nil =>
    rcases h with ⟨task, hmem, _⟩
    cases hmem
  | append_singleton moving last ih =>
    rw [foldl_append]
    rw [foldl_cons, foldl_nil]
    rcases eq_or_ne (accountId, target last) key with hlast | hlast
    · rw [hlast, update_self,
        hsame last (mem_append_right _ mem_cons_self) hlast]
    rw [update_of_ne (Ne.symm hlast)]
    apply ih
    · rcases h with ⟨task, hmem, hkey⟩
      rcases mem_append.mp hmem with hold | hnew
      · exact ⟨task, hold, hkey⟩
      · rw [mem_singleton.mp hnew] at hkey
        exact absurd hkey hlast
    · exact fun task hmem => hsame task (mem_append_left _ hmem)

theorem foldl_move_of_no_target
    (h : forall task : WatchTask, task ∈ moving -> (accountId, target task) ≠ key) :
    moving.foldl (fun index task =>
      update index (accountId, target task) (some task.taskId)) index key =
        index key := by
  induction moving generalizing index with
  | nil => rfl
  | cons task rest ih =>
    rw [foldl_cons, ih fun other hother => h other (mem_cons_of_mem task hother)]
    exact update_of_ne (Ne.symm (h task mem_cons_self)) _ _

end Loops

/-!
# The rewrite
-/

section Rewrite

variable {manager : Manager} {oldUri newUri accountId : Str}

variable {task : WatchTask}

theorem under_iff :
    under accountId oldUri task = true <->
      task.accountId = accountId ∧ uriMatchesPrefix task.toUri oldUri = true := by
  unfold under
  rw [Bool.and_eq_true, decide_eq_true_iff]

theorem movedTarget_of_under
    (hunder : under accountId oldUri task = true) (hnormalized : Normalized task.toUri)
    (newUri : Str) :
    exists uri rest : Str, given? task.toUri = some uri ∧ normalizeUri uri = uri ∧
      uri = normalizeUri oldUri ++ rest ∧
      movedTarget oldUri newUri task = normalizeUri newUri ++ rest := by
  have hmatches := (under_iff.mp hunder).2
  cases hgiven : given? task.toUri with
  | none =>
    unfold uriMatchesPrefix at hmatches
    rw [hgiven] at hmatches
    cases hmatches
  | some uri =>
    have hsome : task.toUri = some uri := (Option.filter_eq_some_iff.mp hgiven).1
    rw [hsome] at hmatches
    obtain ⟨rest, huri, hmoved⟩ :=
      rewriteUriPrefix_of_matches hmatches (hnormalized uri hgiven) newUri
    refine ⟨uri, rest, rfl, hnormalized uri hgiven, huri, ?_⟩
    unfold movedTarget
    rw [hsome]
    exact hmoved

theorem moved_unique (h : Consistent manager) {task other : WatchTask}
    (hmem : task ∈ manager.tasks) (hunder : under accountId oldUri task = true)
    (hother : other ∈ manager.tasks) (hotherUnder : under accountId oldUri other = true)
    (hsame : movedTarget oldUri newUri task = movedTarget oldUri newUri other) :
    task = other := by
  obtain ⟨uri, rest, hgiven, _, huri, hmoved⟩ :=
    movedTarget_of_under hunder (h.tasks.normalized task hmem) newUri
  obtain ⟨uri', rest', hgiven', _, huri', hmoved'⟩ :=
    movedTarget_of_under hotherUnder (h.tasks.normalized other hother) newUri
  have hrest : rest = rest' := by
    rw [hmoved, hmoved'] at hsame
    exact append_cancel_left hsame
  have haccount := (under_iff.mp hunder).1
  have haccount' := (under_iff.mp hotherUnder).1
  apply h.tasks.distinct task other hmem hother (accountId, uri)
  · exact ⟨haccount.symm, hgiven⟩
  · refine ⟨haccount'.symm, ?_⟩
    rw [hgiven', huri', ← hrest, ← huri]

theorem moved_given (hunder : under accountId oldUri task = true)
    (hnormalized : Normalized task.toUri) (hnew : normalizeUri newUri ≠ []) :
    given? (some (movedTarget oldUri newUri task)) =
      some (movedTarget oldUri newUri task) := by
  obtain ⟨_, rest, _, _, _, hmoved⟩ := movedTarget_of_under hunder hnormalized newUri
  apply Option.filter_eq_some_iff.mpr
  refine ⟨rfl, decide_eq_true ?_⟩
  rw [hmoved]
  exact append_ne_nil_of_left_ne_nil hnew rest

theorem owner_of_planned
    (hplan : manager.planConflict? accountId (manager.plan oldUri newUri accountId) = none) (hmem : task ∈ manager.tasks)
    (hunder : under accountId oldUri task = true) {existing : Nat}
    (hexisting : manager.uriToTask (accountId, movedTarget oldUri newUri task) =
      some existing) : existing = task.taskId := by
  have hentry : (task.taskId, movedTarget oldUri newUri task) ∈
      manager.plan oldUri newUri accountId :=
    mem_map.mpr ⟨task, mem_filter.mpr ⟨hmem, hunder⟩, rfl⟩
  have hnone := findSome?_eq_none_iff.mp hplan _ hentry
  dsimp only at hnone
  rw [hexisting] at hnone
  dsimp only at hnone
  split at hnone
  · cases hnone
  · split at hnone
    · cases hnone
    · rename_i hsame
      exact not_not.mp hsame

/-- The tasks that move, and the others. -/
theorem holds_rewritten (key : TargetKey) (taskId : Nat) :
    Holds (updateWhere (under accountId oldUri)
        (fun task => task.rewriteTarget (movedTarget oldUri newUri task)) manager.tasks)
      key taskId <->
    (exists task : WatchTask, task ∈ manager.tasks ∧
        under accountId oldUri task = true ∧ task.taskId = taskId ∧
        IsKey accountId (some (movedTarget oldUri newUri task)) key) ∨
      (exists task : WatchTask, task ∈ manager.tasks ∧
        under accountId oldUri task = false ∧ task.taskId = taskId ∧
        IsKey task.accountId task.toUri key) := by
  constructor
  · rintro ⟨changed, hmem, hid, hkey⟩
    rcases mem_updateWhere.mp hmem with ⟨old, hold, heq⟩
    rw [heq] at hid hkey
    cases hunder : under accountId oldUri old with
    | true =>
      rw [hunder, if_pos rfl] at hid hkey
      change IsKey old.accountId (some (movedTarget oldUri newUri old)) key at hkey
      rw [(under_iff.mp hunder).1] at hkey
      exact .inl ⟨old, hold, hunder, hid, hkey⟩
    | false =>
      rw [hunder, if_neg Bool.false_ne_true] at hid hkey
      exact .inr ⟨old, hold, hunder, hid, hkey⟩
  · rintro (⟨old, hold, hunder, hid, hkey⟩ | ⟨old, hold, hunder, hid, hkey⟩)
    · refine ⟨_, mem_updateWhere.mpr ⟨old, hold, rfl⟩, ?_, ?_⟩
      · rw [hunder, if_pos rfl]
        exact hid
      · rw [hunder, if_pos rfl]
        rw [← (under_iff.mp hunder).1] at hkey
        exact hkey
    · refine ⟨_, mem_updateWhere.mpr ⟨old, hold, rfl⟩, ?_, ?_⟩
      · rw [hunder, if_neg Bool.false_ne_true]
        exact hid
      · rw [hunder, if_neg Bool.false_ne_true]
        exact hkey

theorem rewriteIndex_of_no_target {key : TargetKey}
    (h : forall task : WatchTask, task ∈ manager.tasks ->
      under accountId oldUri task = true ->
      (accountId, movedTarget oldUri newUri task) ≠ key) :
    ((exists task : WatchTask, task ∈ manager.tasks ∧
        under accountId oldUri task = true ∧ IsKey accountId task.toUri key) ->
      manager.rewriteIndex oldUri newUri accountId key = none) ∧
    ((forall task : WatchTask, task ∈ manager.tasks ->
        under accountId oldUri task = true -> ¬ IsKey accountId task.toUri key) ->
      manager.rewriteIndex oldUri newUri accountId key = manager.uriToTask key) := by
  have hmoves : manager.rewriteIndex oldUri newUri accountId key =
      (manager.tasks.filter (under accountId oldUri)).foldl
        (fun index task => leave index accountId task.toUri) manager.uriToTask key := by
    unfold Manager.rewriteIndex
    apply foldl_move_of_no_target
    intro task hmem
    rcases mem_filter.mp hmem with ⟨htask, hunder⟩
    exact h task htask hunder
  rw [hmoves]
  constructor
  · rintro ⟨task, hmem, hunder, hkey⟩
    exact foldl_leave_of_isKey ⟨task, mem_filter.mpr ⟨hmem, hunder⟩, hkey⟩
  · intro hnone
    apply foldl_leave_of_not_isKey
    intro task hmem
    rcases mem_filter.mp hmem with ⟨htask, hunder⟩
    exact hnone task htask hunder

section

variable (h : Consistent manager) (hnew : normalizeUri newUri ≠ [])
    (hplan : manager.planConflict? accountId (manager.plan oldUri newUri accountId) = none)

include h hnew hplan

theorem index_rewrite : IndexExact
      { tasks := updateWhere (under accountId oldUri)
          (fun task => task.rewriteTarget (movedTarget oldUri newUri task)) manager.tasks
        uriToTask := manager.rewriteIndex oldUri newUri accountId } := by
  intro key taskId
  rw [holds_rewritten]
  change manager.rewriteIndex oldUri newUri accountId key = some taskId <-> _
  have hother : forall {other : WatchTask}, other ∈ manager.tasks ->
      IsKey other.accountId other.toUri key ->
      manager.uriToTask key = some other.taskId := fun hother hkey =>
    (h.index _ _).mpr ⟨_, hother, rfl, hkey⟩
  rcases Classical.em (exists task : WatchTask, task ∈ manager.tasks ∧
    under accountId oldUri task = true ∧
    (accountId, movedTarget oldUri newUri task) = key) with
    ⟨mover, hmover, hunder, hkey⟩ | hnone
  · -- a task moves to this key
    have hgiven := moved_given hunder (h.tasks.normalized mover hmover) hnew
    have hmoverKey : IsKey accountId (some (movedTarget oldUri newUri mover)) key := by
      rw [← hkey]
      exact ⟨rfl, hgiven⟩
    have hindex : manager.rewriteIndex oldUri newUri accountId key =
        some mover.taskId := by
      unfold Manager.rewriteIndex
      apply foldl_move_of_target
      · exact ⟨mover, mem_filter.mpr ⟨hmover, hunder⟩, hkey⟩
      · intro task hmem htask
        rcases mem_filter.mp hmem with ⟨hmem, htaskUnder⟩
        have hsame : movedTarget oldUri newUri task = movedTarget oldUri newUri mover := by
          rw [← hkey] at htask
          exact (Prod.ext_iff.mp htask).2
        rw [moved_unique h hmem htaskUnder hmover hunder hsame]
    rw [hindex]
    constructor
    · intro heq
      exact .inl ⟨mover, hmover, hunder, Option.some.inj heq, hmoverKey⟩
    rintro (⟨task, hmem, htaskUnder, hid, htaskKey⟩ | ⟨task, hmem, hnot, hid, htaskKey⟩)
    · have hsame : movedTarget oldUri newUri task = movedTarget oldUri newUri mover := by
        have htarget := moved_given htaskUnder (h.tasks.normalized task hmem) hnew
        have htaken := htarget.symm.trans htaskKey.2
        rw [← hkey] at htaken
        exact Option.some.inj htaken
      rw [← hid, moved_unique h hmem htaskUnder hmover hunder hsame]
    · have howner := hother hmem htaskKey
      rw [← hkey] at howner
      have hid' := owner_of_planned hplan hmover hunder howner
      rw [← hid, hid']
  · -- no task moves to this key
    have hno : forall task : WatchTask, task ∈ manager.tasks ->
        under accountId oldUri task = true ->
        (accountId, movedTarget oldUri newUri task) ≠ key := fun task hmem hunder heq =>
      hnone ⟨task, hmem, hunder, heq⟩
    rcases rewriteIndex_of_no_target hno with ⟨hleft, hstays⟩
    constructor
    · intro heq
      have hnot : forall task : WatchTask, task ∈ manager.tasks ->
          under accountId oldUri task = true -> ¬ IsKey accountId task.toUri key := by
        intro task hmem hunder hkey
        rw [hleft ⟨task, hmem, hunder, hkey⟩] at heq
        cases heq
      rw [hstays hnot] at heq
      rcases (h.index key taskId).mp heq with ⟨task, hmem, hid, hkey⟩
      cases hunder : under accountId oldUri task with
      | true =>
        rw [(under_iff.mp hunder).1] at hkey
        exact absurd hkey (hnot task hmem hunder)
      | false => exact .inr ⟨task, hmem, hunder, hid, hkey⟩
    · rintro (⟨task, hmem, hunder, _, hkey⟩ | ⟨task, hmem, hfalse, hid, hkey⟩)
      · have htarget := moved_given hunder (h.tasks.normalized task hmem) hnew
        have hcontra : (accountId, movedTarget oldUri newUri task) = key := by
          apply Prod.ext
          · exact hkey.1.symm
          · exact Option.some.inj (htarget.symm.trans hkey.2)
        exact absurd hcontra (hno task hmem hunder)
      · have hnot : forall other : WatchTask, other ∈ manager.tasks ->
            under accountId oldUri other = true -> ¬ IsKey accountId other.toUri key := by
          intro other hotherMem hunder hotherKey
          rw [← (under_iff.mp hunder).1] at hotherKey
          have hsame := h.tasks.distinct task other hmem hotherMem key hkey hotherKey
          rw [hsame, hunder] at hfalse
          cases hfalse
        rw [hstays hnot, ← hid]
        exact hother hmem hkey

theorem consistent_rewrite : Consistent
      { tasks := updateWhere (under accountId oldUri)
          (fun task => task.rewriteTarget (movedTarget oldUri newUri task)) manager.tasks
        uriToTask := manager.rewriteIndex oldUri newUri accountId } := by
  apply Consistent.of_index
  · have hids : (updateWhere (under accountId oldUri)
        (fun task => task.rewriteTarget (movedTarget oldUri newUri task))
        manager.tasks).map WatchTask.taskId = manager.tasks.map WatchTask.taskId :=
      ids_updateWhere fun _ _ _ => rfl
    change (map WatchTask.taskId (updateWhere _ _ _)).Nodup
    rw [hids]
    exact h.tasks.ids
  · exact index_rewrite h hnew hplan
  · apply forall_updateWhere _ h.tasks.normalized
    intro task hmem hunder target htarget
    obtain ⟨uri, rest, _, hnormalized, huri, hmoved⟩ :=
      movedTarget_of_under hunder (h.tasks.normalized task hmem) newUri
    have heq : target = movedTarget oldUri newUri task :=
      (Option.some.inj (Option.filter_eq_some_iff.mp htarget).1).symm
    rw [heq, hmoved]
    exact normalizeUri_moved huri hnormalized
  · apply forall_updateWhere _ h.tasks.scheduled
    intro task hmem _
    have hscheduled := h.tasks.scheduled task hmem
    exact ⟨hscheduled.active, hscheduled.inactive⟩

end

/-- Taking a rewrite back leaves the manager as it was. -/
theorem restore_rewrite (h : Consistent manager) :
    Manager.restoreTargets
      { tasks := updateWhere (under accountId oldUri)
          (fun task => task.rewriteTarget (movedTarget oldUri newUri task)) manager.tasks
        uriToTask := manager.rewriteIndex oldUri newUri accountId } manager = manager := by
  have hrestored : forall task : WatchTask, task ∈ manager.tasks ->
      manager.restoreTarget
        (if under accountId oldUri task = true then
          task.rewriteTarget (movedTarget oldUri newUri task) else task) = task := by
    intro task hmem
    have hget : manager.get task.taskId = some task :=
      (get_some_iff h.tasks.ids).mpr ⟨hmem, rfl⟩
    unfold Manager.restoreTarget
    split
    · rename_i hnone
      split at hnone
      · change manager.get task.taskId = none at hnone
        rw [hget] at hnone
        cases hnone
      · rw [hget] at hnone
        cases hnone
    · rename_i original hsome
      split at hsome
      · rename_i hunder
        change manager.get task.taskId = some original at hsome
        rw [hget] at hsome
        rw [if_pos hunder, ← Option.some.inj hsome]
        rfl
      · rename_i hunder
        rw [hget] at hsome
        rw [if_neg hunder, ← Option.some.inj hsome]
  have htasks : (updateWhere (under accountId oldUri)
      (fun task => task.rewriteTarget (movedTarget oldUri newUri task))
      manager.tasks).map manager.restoreTarget = manager.tasks := by
    rw [updateWhere, map_map]
    calc
      manager.tasks.map _ = manager.tasks.map id := map_congr_left hrestored
      _ = manager.tasks := map_id _
  unfold Manager.restoreTargets
  rw [htasks]

end Rewrite

end Watch
end OpenViking
