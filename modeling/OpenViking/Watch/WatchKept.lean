import OpenViking.Watch.RewritesConsistent

/-!
# Watch tasks stay consistent

Over every run of proper calls, crashes and restarts, the index follows the tasks, the
schedule follows the activity, and the storage can be loaded.
-/

namespace OpenViking
namespace Watch

open Interleaving World List Manager

open Paths (Str)

/-!
# Loading
-/

theorem loadTask_scheduled {task : WatchTask} (h : task.Scheduled) :
    loadTask task = some (task, false) := by
  unfold loadTask
  cases hactive : task.isActive with
  | false => rw [if_pos rfl, if_pos (h.inactive hactive)]
  | true =>
    rcases h.active hactive with ⟨hpositive, hnext⟩
    obtain ⟨next, hnext⟩ := Option.isSome_iff_exists.mp hnext
    rw [if_neg (fun heq => nomatch heq), nonPositive_of_positive hpositive,
      if_neg Bool.false_ne_true, hnext]

variable {tasks : List WatchTask}

theorem TasksConsistent.of_append {last : WatchTask}
    (h : TasksConsistent (tasks ++ [last])) :
    TasksConsistent tasks ∧ last ∉ tasks ∧
      forall task : WatchTask, task ∈ tasks -> task.taskId ≠ last.taskId := by
  have hids := h.ids
  rw [map_append, nodup_append] at hids
  have hne : forall task : WatchTask, task ∈ tasks -> task.taskId ≠ last.taskId :=
    fun task hmem =>
      hids.2.2 _ (mem_map_of_mem hmem) _ mem_cons_self
  refine ⟨?_, fun hmem => hne last hmem rfl, hne⟩
  exact
    { ids := hids.1
      distinct := fun task other htask hother =>
        h.distinct task other (mem_append_left _ htask)
          (mem_append_left _ hother)
      normalized := fun task hmem => h.normalized task (mem_append_left _ hmem)
      scheduled := fun task hmem => h.scheduled task (mem_append_left _ hmem) }

theorem load_consistent (h : TasksConsistent tasks) :
    exists manager : Manager, load tasks = (manager, false) ∧
      manager.tasks = tasks ∧ Consistent manager := by
  induction tasks using reverseRecOn with
  | nil =>
    refine ⟨empty, rfl, rfl, h, ?_⟩
    intro key taskId
    constructor
    · nofun
    · rintro ⟨task, hmem, _⟩
      cases hmem
  | append_singleton tasks last ih =>
    rcases h.of_append with ⟨htasks, hnot, hids⟩
    rcases ih htasks with ⟨manager, hload, hsame, hconsistent⟩
    have hlast : last ∈ tasks ++ [last] := mem_append_right _ mem_cons_self
    have hany : manager.tasks.any (hasId last.taskId) = false := by
      rw [any_eq_false]
      intro task hmem hid
      rw [hsame] at hmem
      exact hids task hmem (hasId_iff.mp hid)
    have hfree : forall key : TargetKey, IsKey last.accountId last.toUri key ->
        manager.uriToTask key = none := by
      intro key hkey
      cases hexisting : manager.uriToTask key with
      | none => rfl
      | some existing =>
        rcases (hconsistent.index key existing).mp hexisting with
          ⟨task, hmem, _, htaskKey⟩
        rw [hsame] at hmem
        have heq := h.distinct task last (mem_append_left _ hmem) hlast key
          htaskKey hkey
        rw [heq] at hmem
        exact absurd hmem hnot
    refine ⟨_, ?_, ?_, consistent_append hconsistent ?_ hfree
      (h.normalized last hlast) (h.scheduled last hlast)⟩
    · unfold load at hload ⊢
      rw [foldl_append, hload, foldl_cons, foldl_nil]
      unfold loadInto
      rw [loadTask_scheduled (h.scheduled last hlast)]
      dsimp only
      rw [hany, if_neg Bool.false_ne_true]
      rfl
    · change manager.tasks ++ [last] = tasks ++ [last]
      rw [hsame]
    · intro task hmem
      rw [hsame] at hmem
      exact hids task hmem

/-!
# Calls
-/

/-- A call that does not save leaves the manager alone, and one that saves leaves it
consistent. -/
structure Handled (manager : Manager) (rewrites : Bool) (call : Call) : Prop where
  quiet : call.outcome ≠ .saving -> call.after = manager
  saving : call.outcome = .saving ->
    Consistent call.after ∧ (rewrites = true -> call.onFailure = manager)

theorem handled_quiet (manager : Manager) (rewrites : Bool) {outcome : Outcome}
    (h : outcome ≠ .saving) : Handled manager rewrites (.leaving manager outcome) where
  quiet := fun _ => rfl
  saving := fun hsaving => absurd hsaving h

theorem handled_saving (manager : Manager) {after : Manager} (h : Consistent after) :
    Handled manager false (.leaving after .saving) where
  quiet := fun hnot => absurd rfl hnot
  saving := fun _ => ⟨h, fun hcontra => nomatch hcontra⟩

section Calls

variable {manager : Manager}

variable {taskId : Nat}

theorem mem_of_get {task : WatchTask}
    (h : manager.get taskId = some task) : task ∈ manager.tasks ∧ task.taskId = taskId :=
  ⟨mem_of_find?_eq_some h, hasId_iff.mp (find?_some h)⟩

section

variable (h : Consistent manager)

include h

theorem handled_create
    (hfresh : manager.get taskId = none) {request : CreateRequest}
    (hnormalized : Normalized request.toUri) (now : Rat) :
    Handled manager false (manager.createTask taskId request now) := by
  unfold createTask
  split
  · exact handled_quiet manager false (fun hcontra => nomatch hcontra)
  split
  · exact handled_quiet manager false (fun hcontra => nomatch hcontra)
  split
  · exact handled_quiet manager false (fun hcontra => nomatch hcontra)
  rename_i hpositive hfree
  have hnot : request.watchInterval.nonPositive = false :=
    Bool.eq_false_iff.mpr hpositive
  split
  · exact handled_quiet manager false (fun hcontra => nomatch hcontra)
  rename_i task heq
  unfold WatchTask.reschedule at heq
  cases hnext : (request.task taskId now).calculateNextExecutionTime with
  | none =>
    rw [hnext] at heq
    cases heq
  | some next =>
    rw [hnext] at heq
    cases heq
    apply handled_saving
    apply consistent_append h
    · intro other hother hid
      have hnone := find?_eq_none.mp hfresh other hother
      exact hnone (hasId_iff.mpr hid)
    · intro key hkey
      cases hexisting : manager.uriToTask key with
      | none => rfl
      | some existing =>
        have hcontra := not_conflict (Bool.eq_false_iff.mpr hfree) hkey hexisting
        cases hcontra
    · exact hnormalized
    · exact WatchTask.scheduled_setNext rfl
        (Interval.positive_of_calculated hnext hnot) next

theorem handled_update {caller : Caller}
    {changes : TaskChanges} (hnormalized : Normalized changes.toUri)
    (hfit : forall task : WatchTask, manager.get taskId = some task ->
      checkPermission task caller = true ->
      manager.checkUriConflict changes.toUri task.accountId (some taskId) = false ->
      ChangesFit task changes) :
    Handled manager false (manager.updateTask taskId caller changes) := by
  unfold updateTask
  split
  · exact handled_quiet manager false (fun hcontra => nomatch hcontra)
  rename_i task hget
  rcases mem_of_get hget with ⟨hmem, hid⟩
  split
  · exact handled_quiet manager false (fun hcontra => nomatch hcontra)
  rename_i hpermitted
  split
  · exact handled_quiet manager false (fun hcontra => nomatch hcontra)
  rename_i hconflict
  have hfree := Bool.eq_false_iff.mpr hconflict
  have hfits := hfit task hget (Bool.eq_true_of_not_eq_false hpermitted) hfree
  obtain ⟨changed, hupdate, hcarries, hscheduled⟩ :=
    update_fits (h.tasks.scheduled task hmem) hfits
  rw [hupdate]
  rw [← hid] at hfree
  exact handled_saving manager
    (consistent_updateTask h hmem hcarries hscheduled hnormalized hfree)

theorem handled_updateAuthState (taskId : Nat) (authState : Option Str) :
    Handled manager false (manager.updateAuthState taskId authState) := by
  unfold updateAuthState
  split
  · exact handled_quiet manager false (fun hcontra => nomatch hcontra)
  · rename_i task hget
    have hmem := (mem_of_get hget).1
    have hscheduled := h.tasks.scheduled task hmem
    exact handled_saving manager (consistent_putTask h hmem ⟨rfl, rfl, rfl⟩
      ⟨hscheduled.active, hscheduled.inactive⟩)

theorem handled_delete (taskId : Nat) (caller : Caller) :
    Handled manager false (manager.deleteTask taskId caller) := by
  unfold deleteTask
  split
  · exact handled_quiet manager false (fun hcontra => nomatch hcontra)
  · rename_i task hget
    split
    · exact handled_quiet manager false (fun hcontra => nomatch hcontra)
    · rcases mem_of_get hget with ⟨hmem, hid⟩
      rw [← hid]
      exact handled_saving manager (consistent_deleteTask h hmem)

theorem handled_deactivate (uri accountId : Str) :
    Handled manager false (manager.deactivateTasksUnderUri uri accountId) := by
  unfold deactivateTasksUnderUri
  split
  · apply handled_saving
    apply consistent_updateWhere h
    · exact fun _ _ _ => ⟨rfl, rfl, rfl⟩
    · exact fun task _ _ => task.scheduled_deactivate
  · exact handled_quiet manager false (fun hcontra => nomatch hcontra)

theorem handled_updateExecutionTime {now : Rat}
    (hnext : forall task : WatchTask, manager.get taskId = some task ->
      task.isActive = true ->
      ({ task with lastExecutionTime := some now } :
        WatchTask).calculateNextExecutionTime ≠ none) :
    Handled manager false (manager.updateExecutionTime taskId now) := by
  unfold updateExecutionTime
  split
  · exact handled_quiet manager false (fun hcontra => nomatch hcontra)
  rename_i task hget
  have hmem := (mem_of_get hget).1
  split
  · exact handled_saving manager
      (consistent_putTask h hmem ⟨rfl, rfl, rfl⟩ task.scheduled_deactivate)
  rename_i hrunning
  have hactive : task.isActive = true :=
    Bool.eq_true_of_not_eq_false fun hfalse => hrunning (Or.inl hfalse)
  obtain ⟨next, hcalculated⟩ :=
    Option.ne_none_iff_exists'.mp (hnext task hget hactive)
  rw [reschedule_eq hcalculated]
  have hpositive := ((h.tasks.scheduled task hmem).active hactive).1
  have hscheduled := @WatchTask.scheduled_setNext
    { task with lastExecutionTime := some now } hactive hpositive next
  exact handled_saving manager
    (consistent_putTask h hmem ⟨rfl, rfl, rfl⟩ hscheduled)

theorem handled_rewrite {oldUri newUri accountId : Str}
    (hnew : normalizeUri newUri ≠ []) :
    Handled manager true (manager.rewriteTargetPrefix oldUri newUri accountId) := by
  unfold rewriteTargetPrefix
  dsimp only
  split
  · exact handled_quiet manager true (fun hcontra => nomatch hcontra)
  · rename_i hplan
    split
    · exact handled_quiet manager true (fun hcontra => nomatch hcontra)
    · exact
        { quiet := fun hnot => absurd rfl hnot
          saving := fun _ => ⟨consistent_rewrite h hnew hplan,
            fun _ => restore_rewrite h⟩ }

theorem handled_request {request : Request}
    (hfresh : request.Fresh manager) (hproper : request.Proper manager) :
    Handled manager request.rewrites (manager.handle request) := by
  cases request with
  | create taskId request now => exact handled_create h hfresh hproper now
  | update taskId caller changes => exact handled_update h hproper.1 hproper.2
  | updateAuthState taskId authState => exact handled_updateAuthState h taskId authState
  | delete taskId caller => exact handled_delete h taskId caller
  | deactivate uri accountId => exact handled_deactivate h uri accountId
  | updateExecutionTime taskId now => exact handled_updateExecutionTime h hproper
  | rewrite oldUri newUri accountId => exact handled_rewrite h hproper

end

end Calls

/-!
# Runs
-/

/-- While the process runs, memory and storage hold the saved tasks; after a crash the
storage holds these or the tasks of the save it interrupted. -/
structure Sound (world : World) : Prop where
  up : forall manager : Manager, world.manager = some manager ->
    Consistent manager ∧ manager.tasks = world.saved ∧
      world.storage.recovered = world.saved ∧ world.attempt = none
  recovered : world.storage.recovered = world.saved ∨
    world.attempt = some world.storage.recovered
  stored : TasksConsistent world.storage.recovered

theorem sound_start : Sound start where
  up := fun _ hup => nomatch hup
  recovered := Or.inl rfl
  stored :=
    { ids := nodup_nil
      distinct := fun _ _ hmem => nomatch hmem
      normalized := fun _ hmem => nomatch hmem
      scheduled := fun _ hmem => nomatch hmem }

variable {fate : SaveFate}

theorem rotate_raised {storage : Storage}
    (h : (storage.rotate tasks fate).2 = .raised) : fate.raises = true := by
  have hstop : forall stop : Stop, stop.result = .raised ->
      decide (stop = .fails) = true := by
    intro stop hraised
    cases stop with
    | fails => rfl
    | crashes => cases hraised
  cases fate with
  | stopsWriting progress stop => exact hstop stop h
  | stopsRemoving progress => cases h
  | stopsBacking removal progress => cases h
  | moves removal backing last =>
    cases last with
    | none => cases h
    | some stopped => exact hstop stopped.2 h

section Worlds

variable {world : World} {manager : Manager}

theorem Sound.save (h : Sound world) (hup : world.manager = some manager)
    {call : Call} (hafter : Consistent call.after) (hsafe : fate.Safe world.storage)
    (hfailure : fate.raises = true -> call.onFailure = manager) :
    Sound (world.save call fate) ∧
      ((world.save call fate).result = .raised .saveFailed ->
        (world.save call fate).manager = world.manager) := by
  rcases h.up manager hup with ⟨hconsistent, hmemory, hdisk, hattempt⟩
  unfold World.save
  cases hrotate : world.storage.rotate call.after.tasks fate with
  | mk storage' result =>
    dsimp only
    cases result with
    | saved =>
      have hnew := Storage.recovered_saved hrotate
      constructor
      · constructor
        · intro other hother
          cases hother
          exact ⟨hafter, rfl, hnew, rfl⟩
        · exact .inl hnew
        · change TasksConsistent storage'.recovered
          rw [hnew]
          exact hafter.tasks
      · nofun
    | raised =>
      have hsame : storage'.recovered = world.storage.recovered := by
        rcases Storage.recovered_stopped hsafe hrotate (fun hcontra => nomatch hcontra)
          with hsame | ⟨_, hcontra⟩
        · exact hsame
        · cases hcontra
      have hback := hfailure (rotate_raised (congrArg Prod.snd hrotate))
      constructor
      · constructor
        · intro other hother
          cases hother
          rw [hback]
          exact ⟨hconsistent, hmemory, hsame.trans hdisk, hattempt⟩
        · exact .inl (hsame.trans hdisk)
        · change TasksConsistent storage'.recovered
          rw [hsame]
          exact h.stored
      · intro _
        change some call.onFailure = world.manager
        rw [hback, hup]
    | crashed =>
      constructor
      · constructor
        · nofun
        · rcases Storage.recovered_stopped hsafe hrotate
            (fun hcontra => nomatch hcontra) with hsame | ⟨hnew, _⟩
          · exact .inl (hsame.trans hdisk)
          · exact .inr (congrArg some hnew.symm)
        · change TasksConsistent storage'.recovered
          rcases Storage.recovered_stopped hsafe hrotate
            (fun hcontra => nomatch hcontra) with hsame | ⟨hnew, _⟩
          · rw [hsame]
            exact h.stored
          · rw [hnew]
            exact hafter.tasks
      · nofun

theorem Sound.finish (h : Sound world) (hup : world.manager = some manager)
    {call : Call}
    {rewrites : Bool} (hhandled : Handled manager rewrites call)
    (hsafe : fate.Safe world.storage) (hfailure : rewrites = true ∨ fate.raises = false) :
    Sound (world.finish call fate) ∧
      forall error : WatchError, (world.finish call fate).result = .raised error ->
        (world.finish call fate).manager = world.manager := by
  have hquiet : call.outcome ≠ .saving -> some call.after = world.manager := by
    intro hnot
    rw [hhandled.quiet hnot, hup]
  have hsame : forall result : CallResult, some call.after = world.manager ->
      Sound { world with manager := some call.after, result := result } := by
    intro result heq
    constructor
    · intro other hother
      exact h.up other (heq.symm.trans hother)
    · exact h.recovered
    · exact h.stored
  unfold World.finish
  cases houtcome : call.outcome with
  | returned =>
    have heq := hquiet (by
      rw [houtcome]
      exact fun hcontra => nomatch hcontra)
    exact ⟨hsame .returned heq, fun _ _ => heq⟩
  | raised error =>
    have heq := hquiet (by
      rw [houtcome]
      exact fun hcontra => nomatch hcontra)
    exact ⟨hsame (.raised error) heq, fun _ _ => heq⟩
  | saving =>
    rcases hhandled.saving houtcome with ⟨hafter, hrollback⟩
    have hback : fate.raises = true -> call.onFailure = manager := by
      intro hraises
      rcases hfailure with hrewrites | hnot
      · exact hrollback hrewrites
      · rw [hraises] at hnot
        cases hnot
    rcases h.save hup hafter hsafe hback with ⟨hsound, hkept⟩
    refine ⟨hsound, ?_⟩
    intro error herror
    apply hkept
    have hfailed : forall error' : WatchError,
        (world.save call fate).result = .raised error' -> error' = .saveFailed := by
      intro error' herror'
      unfold World.save at herror'
      dsimp only at herror'
      split at herror'
      · cases herror'
      · cases herror'
        rfl
      · cases herror'
    rw [hfailed error herror] at herror
    exact herror

theorem Sound.restart (h : Sound world)
    (hsafe : fate.Safe world.storage) :
    Sound (world.restart fate) ∧
      forall error : WatchError, (world.restart fate).result ≠ .raised error := by
  rcases load_consistent h.stored with ⟨manager, hload, htasks, hconsistent⟩
  have hup : Sound
      { world with
        manager := some manager
        saved := world.storage.recovered
        attempt := none
        result := .returned } := by
    constructor
    · intro other hother
      cases hother
      exact ⟨hconsistent, htasks, rfl, rfl⟩
    · exact .inl rfl
    · exact h.stored
  unfold World.restart
  rw [hload]
  dsimp only
  split
  · have hafter : Consistent (Call.leaving manager .saving).after := hconsistent
    have hsaved := hup.save rfl hafter hsafe (fun _ => rfl)
    split
    · rename_i hdown
      refine ⟨hsaved.1, ?_⟩
      intro error hraised
      unfold World.save at hraised hdown
      dsimp only at hraised hdown
      split at hraised
      · cases hraised
      · rename_i hresult
        rw [hresult] at hdown
        cases hdown
      · cases hraised
    · refine ⟨?_, fun _ hcontra => nomatch hcontra⟩
      exact ⟨hsaved.1.up, hsaved.1.recovered, hsaved.1.stored⟩
  · exact ⟨hup, fun _ hcontra => nomatch hcontra⟩

theorem Sound.step {label : Label} {world' : World} (h : Sound world)
    (hok : Orderly world label) (hstep : Watch.step world label = some world') :
    Sound world' ∧ forall error : WatchError, world'.result = .raised error ->
      world'.manager = world.manager := by
  cases label with
  | call request fate =>
    unfold Watch.step at hstep
    dsimp only at hstep
    split at hstep
    · cases hstep
    rename_i manager hup
    split at hstep
    · rename_i hfresh
      cases hstep
      rcases hok with ⟨hproper, hsafe, hfailure⟩
      have hconsistent := (h.up manager hup).1
      exact h.finish hup (handled_request hconsistent hfresh (hproper manager hup))
        hsafe hfailure
    · cases hstep
  | crash =>
    cases hstep
    refine ⟨⟨(fun _ hcontra => nomatch hcontra), h.recovered, h.stored⟩, ?_⟩
    intro error hcontra
    cases hcontra
  | restart fate =>
    unfold Watch.step at hstep
    dsimp only at hstep
    split at hstep
    · cases hstep
      rcases h.restart hok with ⟨hsound, hreturned⟩
      exact ⟨hsound, fun error hraised => absurd hraised (hreturned error)⟩
    · cases hstep

end Worlds

/-!
# The claim
-/

/-- The index is the map from accounts and normalized targets to tasks, and tasks are
scheduled when they are active. -/
structure MemoryKept (manager : Manager) : Prop where
  index : forall (accountId target : Str) (taskId : Nat),
    manager.uriToTask (accountId, target) = some taskId <->
      exists task : WatchTask, task ∈ manager.tasks ∧ task.taskId = taskId ∧
        task.accountId = accountId ∧ exists uri : Str, task.target? = some uri ∧
          normalizeUri uri = target
  distinct : forall (task other : WatchTask) (uri otherUri : Str),
    task ∈ manager.tasks -> other ∈ manager.tasks ->
      task.accountId = other.accountId -> task.target? = some uri ->
      other.target? = some otherUri -> normalizeUri uri = normalizeUri otherUri ->
      task = other
  scheduled : forall task : WatchTask, task ∈ manager.tasks -> task.Scheduled

structure WatchKept (world : World) : Prop where
  memory : forall manager : Manager, world.manager = some manager -> MemoryKept manager
  disk : forall manager : Manager, world.manager = some manager ->
    manager.tasks = world.saved
  loads : (Manager.load world.storage.recovered).1.tasks = world.saved ∨
    world.attempt = some (Manager.load world.storage.recovered).1.tasks

/-- A call that raises leaves the tasks and the index as they were. -/
def RaisingKeeps (world : World) : Prop :=
  forall (label : Label) (world' : World) (error : WatchError), Orderly world label ->
    step world label = some world' -> world'.result = .raised error ->
    world'.manager = world.manager

theorem Consistent.memoryKept {manager : Manager} (h : Consistent manager) :
    MemoryKept manager where
  index := by
    intro accountId target taskId
    rw [h.index (accountId, target) taskId]
    constructor
    · rintro ⟨task, hmem, hid, haccount, htarget⟩
      exact ⟨task, hmem, hid, haccount.symm, target, htarget,
        h.tasks.normalized task hmem target htarget⟩
    · rintro ⟨task, hmem, hid, haccount, uri, htarget, hnormalized⟩
      rw [h.tasks.normalized task hmem uri htarget] at hnormalized
      rw [hnormalized] at htarget
      exact ⟨task, hmem, hid, haccount.symm, htarget⟩
  distinct := by
    intro task other uri otherUri htask hother haccount huri hotherUri hsame
    rw [h.tasks.normalized task htask uri huri,
      h.tasks.normalized other hother otherUri hotherUri] at hsame
    rw [hsame] at huri
    exact h.tasks.distinct task other htask hother (task.accountId, otherUri) ⟨rfl, huri⟩
      ⟨haccount, hotherUri⟩
  scheduled := h.tasks.scheduled

theorem Sound.watchKept {world : World} (h : Sound world) : WatchKept world where
  memory := fun manager hup => (h.up manager hup).1.memoryKept
  disk := fun manager hup => (h.up manager hup).2.1
  loads := by
    rcases load_consistent h.stored with ⟨manager, hload, htasks, _⟩
    rw [hload, htasks]
    exact h.recovered

/-- In every run of proper calls and safe saves the tasks are kept, and the calls that
raise there change nothing. -/
theorem watch_tasks_kept (labels : List Label) (world : World)
    (hmeets : Interleaving.Meets step Orderly start labels)
    (hrun : run step start labels = some world) :
    WatchKept world ∧ RaisingKeeps world := by
  have hsound : Sound world :=
    run_inv step (fun hs hok hstep => (hs.step hok hstep).1) sound_start
      hmeets hrun
  refine ⟨hsound.watchKept, ?_⟩
  intro label world' error hok hstep hraised
  exact (hsound.step hok hstep).2 error hraised

/-!
# Two runs
-/

def dailyRequest : CreateRequest :=
  { path := ['p'], toUri := some ['v', ':', '/', 'a'], toIsDirectory := none
    parentUri := none, reason := [], instruction := [], watchInterval := .minutes 60
    buildIndex := true, summarize := false, processingMode := ['d']
    processorKwargs := [], authState := none, accountId := ['t'], userId := ['u']
    originalRole := ['u'] }

def owner : Caller :=
  { accountId := ['t'], userId := ['u'], role := .user }

def noChanges : TaskChanges :=
  { path := none, toUri := none, toIsDirectory := none, parentUri := none
    reason := none, instruction := none, watchInterval := none, buildIndex := none
    summarize := none, processingMode := none, processorKwargs := none
    authState := none, isActive := none }

/-- A save that meets no failure. -/
def smooth : SaveFate :=
  .moves none none none

instance decidableNormalized (uri : Option Str) : Decidable (Normalized uri) :=
  inferInstanceAs (Decidable (forall target : Str, target ∈ given? uri ->
    normalizeUri target = target))

instance decidableChangesFit (task : WatchTask) (changes : TaskChanges) :
    Decidable (ChangesFit task changes) :=
  match hinterval : changes.watchInterval with
  | some interval =>
    decidable_of_iff
      (if interval.nonPositive then changes.isActive ≠ some true
        else
          changes.isActive.getD task.isActive = true ->
            interval.positive = true ∧
              ({ task with watchInterval := interval } :
                WatchTask).calculateNextExecutionTime ≠ none)
      (by
        unfold ChangesFit
        rw [hinterval])
  | none =>
    decidable_of_iff
      (changes.isActive = some true ->
        task.watchInterval.nonPositive = false ∧
          (task.nextExecutionTime = none -> task.calculateNextExecutionTime ≠ none))
      (by
        unfold ChangesFit
        rw [hinterval])

instance decidableProper (manager : Manager) :
    forall request : Request, Decidable (request.Proper manager)
  | .create _ request _ => decidableNormalized request.toUri
  | .update taskId caller changes =>
    inferInstanceAs (Decidable (Normalized changes.toUri ∧
      forall task : WatchTask, task ∈ manager.get taskId ->
        checkPermission task caller = true ->
        manager.checkUriConflict changes.toUri task.accountId (some taskId) = false ->
        ChangesFit task changes))
  | .updateExecutionTime taskId now =>
    inferInstanceAs (Decidable (forall task : WatchTask, task ∈ manager.get taskId ->
      task.isActive = true ->
      ({ task with lastExecutionTime := some now } :
        WatchTask).calculateNextExecutionTime ≠ none))
  | .rewrite _ newUri _ => inferInstanceAs (Decidable (normalizeUri newUri ≠ []))
  | .updateAuthState _ _ | .delete _ _ | .deactivate _ _ => isTrue trivial

instance decidableOrderly (world : World) :
    forall label : Label, Decidable (Orderly world label)
  | .call request fate =>
    inferInstanceAs (Decidable
      ((forall manager : Manager, manager ∈ world.manager -> request.Proper manager) ∧
        fate.Safe world.storage ∧ (request.rewrites = true ∨ fate.raises = false)))
  | .crash => isTrue trivial
  | .restart fate => decidableSafe world.storage fate

/-- A task is created, paused and moved, and the move's save does not survive its last
copy; the next load has the moved task. -/
def pausedRun : List Label :=
  [.restart smooth, .call (.create 1 dailyRequest 100) smooth,
    .call (.update 1 owner { noChanges with isActive := some false }) smooth,
    .call (.rewrite ['v', ':', '/', 'a'] ['v', ':', '/', 'b'] ['t'])
      (.moves none none (some (.all, .crashes))), .restart smooth]

/-- A task is created and paused with an interval of zero, and a request to resume it is
rejected. -/
def resumedRun : List Label :=
  [.restart smooth, .call (.create 1 dailyRequest 100) smooth,
    .call (.update 1 owner { noChanges with watchInterval := some (.minutes 0) }) smooth,
    .call (.update 1 owner { noChanges with isActive := some true }) smooth]

/-- The process stops between the two moves of a save, and again, when the restart
saves what it loaded from the backup, after the backup is removed. -/
def interruptedRun : List Label :=
  [.restart smooth, .call (.create 1 dailyRequest 100) smooth,
    .call (.updateAuthState 1 none) (.moves none none (some (.nothing, .crashes))),
    .restart (.stopsRemoving .all)]

theorem watch_tasks_kept_paused :
    exists world, run step start pausedRun = some world ∧
      WatchKept world ∧ RaisingKeeps world ∧
      world.saved.map WatchTask.toUri = [some ['v', ':', '/', 'b']] := by
  have hok : Interleaving.Meets step Orderly start pausedRun := by
    decide +kernel
  have hview : (run step start pausedRun).map (fun world =>
      world.saved.map WatchTask.toUri) = some [some ['v', ':', '/', 'b']] := by
    decide +kernel
  rcases Option.map_eq_some_iff.mp hview with ⟨world, hrun, huri⟩
  have hkept := watch_tasks_kept pausedRun world hok hrun
  exact ⟨world, hrun, hkept.1, hkept.2, huri⟩

/-- A rejected update leaves an active task without a next time, and two crashes leave
no task to load. -/
theorem rejected_update_and_crashes :
    (exists world, run step start resumedRun = some world ∧
      world.result = .raised activeIntervalNotPositive ∧ ¬ WatchKept world) ∧
    (exists world, run step start interruptedRun = some world ∧
      ¬ WatchKept world) := by
  constructor
  · have hview : (run step start resumedRun).map (fun world =>
        (world.result, world.manager.map fun manager => manager.tasks.map fun task =>
          (task.isActive, task.nextExecutionTime))) =
        some (.raised activeIntervalNotPositive, some [(true, none)]) := by
      decide +kernel
    rcases Option.map_eq_some_iff.mp hview with ⟨world, hrun, heq⟩
    rcases Prod.ext_iff.mp heq with ⟨hresult, htasks⟩
    refine ⟨world, hrun, hresult, ?_⟩
    intro hkept
    rcases Option.map_eq_some_iff.mp htasks with ⟨manager, hup, hlist⟩
    rcases List.map_eq_cons_iff.mp hlist with ⟨task, rest, hsplit, htask, _⟩
    have hmem : task ∈ manager.tasks := by
      rw [hsplit]
      exact List.mem_cons_self
    have hscheduled := (hkept.memory manager hup).scheduled task hmem
    rcases Prod.ext_iff.mp htask with ⟨hactive, hnext⟩
    have hsome := (hscheduled.active hactive).2
    change task.nextExecutionTime = none at hnext
    rw [hnext] at hsome
    cases hsome
  · have hview : (run step start interruptedRun).map (fun world =>
        (world.storage.recovered, world.saved.map WatchTask.taskId,
          world.attempt.map fun tasks => tasks.map WatchTask.taskId)) =
        some ([], [1], some [1]) := by
      decide +kernel
    rcases Option.map_eq_some_iff.mp hview with ⟨world, hrun, heq⟩
    rcases Prod.ext_iff.mp heq with ⟨hrecovered, hrest⟩
    rcases Prod.ext_iff.mp hrest with ⟨hsaved, hattempt⟩
    dsimp only at hrecovered hsaved hattempt
    refine ⟨world, hrun, ?_⟩
    intro hkept
    have hloads := hkept.loads
    rw [hrecovered] at hloads
    rcases hloads with hcontra | hcontra
    · rw [← hcontra] at hsaved
      cases hsaved
    · rw [hcontra] at hattempt
      cases hattempt

end Watch
end OpenViking
