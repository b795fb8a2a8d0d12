import OpenViking.Tracker.StepSound

/-!
# The task lifecycle

A step leaves store and cache alone, empties the cache, brings it up to date, writes the
store, or deletes.  Each of these follows the order of a life.
-/

namespace OpenViking
namespace Tracker

open Interleaving World Option

open Paths (Str)

/-- What a step does to the store and the cache. -/
inductive Effect (world next : World) (label : Label) : Prop where
  | same (cache : next.cache = world.cache) (store : next.store = world.store)
  | cached (cache : next.cache = none ∨ next.cache = world.store)
      (store : next.store = world.store) (work : next.hasWork = world.hasWork)
  | wrote {call now : Nat} {op : Op} {asked : OwnerFilter} {record : TaskRecord}
      (label : label = .advance call now)
      (thread : world.threads[call]? = some (.writing op asked record))
      (fits : WriteFits world op record) (cache : next.cache = world.cache)
      (store : next.store = some record) (work : next.hasWork = world.hasWork)
  | deleted (cache : next.cache = world.cache ∨ next.cache = none)
      (store : next.store = none)

variable {world : World}

theorem decide_ne_publish {owner : TaskOwner} {now : Nat} {op : Op}
    {asked : OwnerFilter} {task : Option TaskRecord} (hop : forall request, op ≠ .create request)
    (record : TaskRecord) : world.decide owner now op asked task ≠ .publish record := by
  intro h
  cases op with
  | create request => exact hop request rfl
  | start stage =>
    change decideStart stage now task = _ at h
    unfold decideStart at h
    repeat' split at h
    all_goals cases h
  | updateStage stage =>
    change decideUpdateStage stage now task = _ at h
    unfold decideUpdateStage at h
    repeat' split at h
    all_goals cases h
  | recordOutcome result error resourceId =>
    change decideOutcome result error resourceId world.failure now task = _ at h
    unfold decideOutcome at h
    repeat' split at h
    all_goals cases h
  | cancel =>
    change decideCancel now task = _ at h
    unfold decideCancel at h
    repeat' split at h
    all_goals cases h
  | finalize report =>
    change decideFinalize world.failure world.hasWork now _ task = _ at h
    unfold decideFinalize at h
    repeat' split at h
    all_goals cases h
  | deleteExpired cutoff =>
    change decideDeleteExpired cutoff task = _ at h
    unfold decideDeleteExpired at h
    repeat' split at h
    all_goals cases h
  | deleteUser =>
    change decideDeleteUser world.hasWork task = _ at h
    unfold decideDeleteUser at h
    repeat' split at h
    all_goals cases h

namespace Effect

variable {owner : TaskOwner} {world next : World} {label : Label} {call now : Nat}

variable {asked : OwnerFilter} {op : Op}

theorem perform {move : Move} (hmove : forall record, move ≠ .publish record) :
    Effect world (world.perform call op asked move) label := by
  cases move with
  | publish record => exact absurd rfl (hmove record)
  | _ => exact .same rfl rfl

theorem perform_fits {move : Move} (hmove : move.Fits world op) :
    Effect world (world.perform call op asked move) label := by
  cases move with
  | publish record => exact .cached (.inr (Eq.symm hmove)) rfl rfl
  | _ => exact .same rfl rfl

theorem of_setLock {lock : Option Nat} (h : Effect (world.setLock lock) next label) :
    (forall op asked record, world.threads[call]? ≠ some (.writing op asked record)) ->
    label = .advance call now -> Effect world next label := by
  intro hnot hlabel
  cases h with
  | same cache store => exact .same cache store
  | cached cache store work => exact .cached cache store work
  | wrote label thread fits cache store work =>
    rw [hlabel] at label
    cases label
    exact absurd thread (hnot _ _ _)
  | deleted cache store => exact .deleted cache store

theorem loadForUpdate (hop : forall request, op ≠ .create request) :
    Effect world (world.loadForUpdate owner call now op asked) label := by
  unfold World.loadForUpdate
  split
  · exact perform (decide_ne_publish hop)
  · split
    · exact .same rfl rfl
    · exact perform (decide_ne_publish hop)

theorem enter : Effect world (world.enter owner call now op asked) label := by
  cases op with
  | create request =>
    unfold enter
    dsimp only
    split
    · exact perform nofun
    · exact .same rfl rfl
  | deleteExpired cutoff => exact perform (decide_ne_publish nofun)
  | deleteUser => exact perform (decide_ne_publish nofun)
  | _ => exact loadForUpdate fun _ heq => by cases heq

theorem publish {record : TaskRecord} (h : world.store = some record) :
    Effect world (world.publish owner call op asked record) label := by
  cases op with
  | _ => exact .cached (.inr h.symm) rfl rfl

theorem forget (h : world.store = none) :
    Effect world (world.forget call op) label := by
  cases op with
  | _ => exact .deleted (.inr rfl) h

theorem mergeLoaded {lookup : Lookup} {task : Option TaskRecord}
    (h : (Thread.merging lookup task).Orderly owner world call) :
    Effect world ((world.mergeLoaded task).setThread call
      ((world.mergeLoaded task).afterMerge owner task lookup)) label := by
  cases task with
  | none => exact .same rfl rfl
  | some record =>
    cases hreplaces : world.replaces record with
    | true =>
      have hcache : (world.mergeLoaded (some record)).cache = world.store := by
        rw [World.mergeLoaded, if_pos hreplaces]
        exact (h hreplaces).symm
      have hrest : (world.mergeLoaded (some record)).store = world.store ∧
          (world.mergeLoaded (some record)).hasWork = world.hasWork := by
        rw [World.mergeLoaded, if_pos hreplaces]
        exact ⟨rfl, rfl⟩
      exact .cached (.inr hcache) hrest.1 hrest.2
    | false =>
      have hsame : world.mergeLoaded (some record) = world := by
        rw [World.mergeLoaded, hreplaces]
        rfl
      rw [hsame]
      exact .same rfl rfl

theorem advance (h : Sound owner world) {thread : Thread}
    (hcall : world.threads[call]? = some thread)
    (horderly : thread.Orderly owner world call)
    (hnext : world.advance owner call now thread = some next) :
    Effect world next (.advance call now) := by
  cases thread with
  | checking report asked =>
    unfold World.advance at hnext
    dsimp only at hnext
    split at hnext
    · cases hnext
      exact .same rfl rfl
    · cases hnext
      exact .same rfl rfl
  | waiting op asked =>
    unfold World.advance at hnext
    dsimp only at hnext
    split at hnext
    · cases hnext
      have hnot : forall op asked record,
          world.threads[call]? ≠ some (.writing op asked record) := by
        intro op asked record heq
        rw [hcall] at heq
        cases heq
      exact enter.of_setLock hnot rfl
    · cases hnext
  | loaded op asked task =>
    cases hnext
    have hfits : (Thread.loaded op asked task).Fits world := h.fits hcall
    exact perform_fits (decide_fits hfits.1 hfits.2)
  | writing op asked record =>
    cases hnext
    exact .wrote rfl hcall (h.fits hcall) rfl rfl rfl
  | written op asked record =>
    cases hnext
    have hfits : (Thread.written op asked record).Fits world := h.fits hcall
    exact publish hfits.1
  | deleting op =>
    cases hnext
    exact .deleted (.inl rfl) rfl
  | deleted op =>
    cases hnext
    exact forget (h.fits hcall)
  | merging lookup task =>
    cases hnext
    exact mergeLoaded horderly
  | authPublishing asked task =>
    cases hnext
    cases task with
    | none => exact .same rfl rfl
    | some record => exact .cached (.inr (Eq.symm horderly)) rfl rfl
  | done answer => cases hnext
  | _ =>
    cases hnext
    exact .same rfl rfl

theorem step (h : Sound owner world) (horderly : Orderly owner world label)
    (hstep : Tracker.step owner world label = some next) :
    Effect world next label := by
  cases label with
  | evict =>
    cases hstep
    exact .cached (.inl rfl) rfl rfl
  | getTaskAuth accountId userId =>
    unfold Tracker.step at hstep
    dsimp only at hstep
    split at hstep
    · cases hstep
    · cases hstep
      exact .same rfl rfl
  | register entry =>
    cases hstep
    unfold register
    split
    · exact .same rfl rfl
    · exact .same rfl rfl
  | registerActive coroutine =>
    cases hstep
    unfold registerActive
    split
    · exact .same rfl rfl
    · exact .same rfl rfl
  | removeWork entry asked =>
    cases hstep
    unfold removeWork
    dsimp only
    split
    · exact .same rfl rfl
    · exact .same rfl rfl
  | advance call now =>
    unfold Tracker.step at hstep
    dsimp only at hstep
    cases hcall : world.threads[call]? with
    | none =>
      rw [hcall] at hstep
      cases hstep
    | some thread =>
      rw [hcall] at hstep
      exact advance h hcall (horderly thread hcall) hstep
  | _ =>
    cases hstep
    exact .same rfl rfl

end Effect

/-!
# Every step follows
-/

theorem seen_cases {record : TaskRecord} (h : world.seen = some record) :
    world.cache = some record ∨ world.cache = none ∧ world.store = some record := by
  unfold seen at h
  cases hcache : world.cache with
  | some cached =>
    rw [hcache] at h
    exact .inl h
  | none =>
    rw [hcache] at h
    exact .inr ⟨rfl, h⟩

theorem seen_eq_store
    (h : world.cache = none ∨ world.cache = world.store) : world.seen = world.store := by
  unfold seen
  rcases h with hnone | heq
  · rw [hnone, Option.none_or]
  · rw [heq, Option.or_self]

section Following

variable {owner : TaskOwner} {world next : World} {label : Label}

section

variable (h : Sound owner world) {before stored : TaskRecord}
    (hbefore : world.seen = some before) (hstored : world.store = some stored)

include h hbefore hstored

theorem Sound.seen_precedes : before.status.Precedes stored.status := by
  rcases seen_cases hbefore with hcache | ⟨_, hstore⟩
  · exact h.ahead hcache hstored
  · rw [hstored] at hstore
    cases hstore
    exact TaskStatus.Precedes.refl _

theorem Sound.idle_of_unseen
    (hactive : before.status.terminal = false) (hterminal : stored.status.terminal = true) :
    world.hasWork = false := by
  have hne : before ≠ stored := by
    rintro rfl
    rw [hactive] at hterminal
    cases hterminal
  have hcache : world.cache = some before := by
    rcases seen_cases hbefore with hcache | ⟨_, hstore⟩
    · exact hcache
    · rw [hstored] at hstore
      exact absurd (some.inj hstore).symm hne
  rcases h.fresh with hnone | heq | ⟨call, thread, hcall, hbehind⟩
  · rw [hcache] at hnone
    cases hnone
  · rw [hcache, hstored] at heq
    exact absurd (some.inj heq) hne
  · have hfits := h.fits hcall
    cases thread with
    | written op asked record =>
      have hrecord : some stored = some record := by
        rw [← hstored]
        exact hfits.1
      cases hrecord
      exact hfits.2 hterminal
    | deleted op =>
      have hnone : world.store = none := hfits
      rw [hstored] at hnone
      cases hnone
    | _ => cases hbehind

end

theorem Follows.of_same (hcache : next.cache = world.cache)
    (hstore : next.store = world.store) : Follows world next label := by
  have hseen : next.seen = world.seen := by rw [World.seen, World.seen, hcache, hstore]
  constructor
  · intro before after hbefore hafter
    rw [hseen, hbefore] at hafter
    cases hafter
    exact TaskStatus.Precedes.refl _
  · intro before after hbefore hafter
    rw [hstore, hbefore] at hafter
    cases hafter
    exact TaskStatus.Precedes.refl _
  · intro before after hbefore hafter hactive hterminal
    rw [hseen, hbefore] at hafter
    cases hafter
    rw [hactive] at hterminal
    cases hterminal
  · intro before after hbefore hafter hactive hterminal
    rw [hstore, hbefore] at hafter
    cases hafter
    rw [hactive] at hterminal
    cases hterminal
  · intro hnone hsome
    rw [hseen] at hsome
    exact absurd hnone hsome
  · intro hnone hsome
    rw [hstore] at hsome
    exact absurd hnone hsome

theorem Sound.follows_cached (h : Sound owner world)
    (hcache : next.cache = none ∨ next.cache = world.store)
    (hstore : next.store = world.store) (hwork : next.hasWork = world.hasWork) :
    Follows world next label := by
  have hseen : next.seen = world.store := by
    rw [← hstore]
    exact seen_eq_store (hstore ▸ hcache)
  have hsame : Follows world { world with store := next.store } label :=
    Follows.of_same rfl hstore
  constructor
  · intro before after hbefore hafter
    rw [hseen] at hafter
    exact h.seen_precedes hbefore hafter
  · exact hsame.stored
  · intro before after hbefore hafter hactive hterminal
    rw [hseen] at hafter
    rw [hwork]
    exact h.idle_of_unseen hbefore hafter hactive hterminal
  · intro before after hbefore hafter hactive hterminal
    rw [hwork]
    exact hsame.stored_idle before after hbefore hafter hactive hterminal
  · intro hnone hsome
    rw [hseen] at hsome
    rw [seen, or_eq_none_iff] at hnone
    exact absurd hnone.2 hsome
  · exact hsame.stored_appears

theorem Follows.of_wrote {call now : Nat} {op : Op} {asked : OwnerFilter}
    {record : TaskRecord} (hlabel : label = .advance call now)
    (hcall : world.threads[call]? = some (.writing op asked record))
    (hfits : WriteFits world op record) (hcache : next.cache = world.cache)
    (hstore : next.store = some record) (hwork : next.hasWork = world.hasWork) :
    Follows world next label := by
  have hcreates : world.store = none -> Creates world label := by
    intro hnone
    rcases (hfits.created hnone).1 with ⟨request, rfl⟩
    exact ⟨call, now, request, asked, record, hlabel, hcall⟩
  have hseen : forall before after : TaskRecord, world.seen = some before ->
      next.seen = some after -> before = after ∨
        world.store = some before ∧ record = after := by
    intro before after hbefore hafter
    rcases seen_cases hbefore with hcached | ⟨hnone, hstored⟩
    · rw [World.seen, hcache, hcached] at hafter
      exact .inl (some.inj hafter)
    · rw [World.seen, hcache, hnone, hstore] at hafter
      exact .inr ⟨hstored, some.inj hafter⟩
  constructor
  · intro before after hbefore hafter
    rcases hseen before after hbefore hafter with rfl | ⟨hstored, rfl⟩
    · exact TaskStatus.Precedes.refl _
    · exact hfits.precedes before hstored
  · intro before after hbefore hafter
    rw [hstore] at hafter
    cases hafter
    exact hfits.precedes before hbefore
  · intro before after hbefore hafter hactive hterminal
    rcases hseen before after hbefore hafter with rfl | ⟨hstored, rfl⟩
    · rw [hactive] at hterminal
      cases hterminal
    · rw [hwork]
      exact hfits.idle hterminal
  · intro before after hbefore hafter hactive hterminal
    rw [hstore] at hafter
    cases hafter
    rw [hwork]
    exact hfits.idle hterminal
  · intro hnone hsome
    rw [World.seen, or_eq_none_iff] at hnone
    constructor
    · exact hcreates hnone.2
    · intro after hafter
      rw [World.seen, hcache, hnone.1, hstore] at hafter
      cases hafter
      exact (hfits.created hnone.2).2
  · intro hnone hsome
    exact hcreates hnone

theorem Follows.of_deleted (hcache : next.cache = world.cache ∨ next.cache = none)
    (hstore : next.store = none) : Follows world next label := by
  have hseen : forall after : TaskRecord, next.seen = some after ->
      world.seen = some after := by
    intro after hafter
    rcases seen_cases hafter with hcached | ⟨_, hstored⟩
    · rcases hcache with heq | hnone
      · rw [heq] at hcached
        rw [World.seen, hcached]
        rfl
      · rw [hnone] at hcached
        cases hcached
    · rw [hstore] at hstored
      cases hstored
  constructor
  · intro before after hbefore hafter
    rw [hseen after hafter] at hbefore
    cases hbefore
    exact TaskStatus.Precedes.refl _
  · intro before after hbefore hafter
    rw [hstore] at hafter
    cases hafter
  · intro before after hbefore hafter hactive hterminal
    rw [hseen after hafter] at hbefore
    cases hbefore
    rw [hactive] at hterminal
    cases hterminal
  · intro before after hbefore hafter
    rw [hstore] at hafter
    cases hafter
  · intro hnone hsome
    rcases ne_none_iff_exists'.mp hsome with ⟨after, hafter⟩
    rw [hseen after hafter] at hnone
    cases hnone
  · intro hnone hsome
    exact absurd hstore hsome

theorem Sound.lives (h : Sound owner world) (horderly : Orderly owner world label) :
    Lives owner world label := by
  intro next hstep
  cases Effect.step h horderly hstep with
  | same hcache hstore => exact Follows.of_same hcache hstore
  | cached hcache hstore hwork => exact h.follows_cached hcache hstore hwork
  | wrote hlabel hcall hfits hcache hstore hwork =>
    exact Follows.of_wrote hlabel hcall hfits hcache hstore hwork
  | deleted hcache hstore => exact Follows.of_deleted hcache hstore

end Following

theorem Sound.of_booted {owner : TaskOwner} (h : world.Booted) :
    Sound owner world := by
  have hnone : forall {call : Nat} {thread : Thread},
      world.threads[call]? ≠ some thread := by
    intro call thread hcall
    rw [h.threads] at hcall
    cases hcall
  constructor
  · intro call thread hcall
    exact absurd hcall hnone
  · intro call thread hcall
    exact absurd hcall hnone
  · exact .inl h.cache
  · intro cached stored hcached
    rw [h.cache] at hcached
    cases hcached
  · intro hripe hidle
    rw [h.work hripe] at hidle
    cases hidle

theorem Sound.settled {owner : TaskOwner} (h : Sound owner world) :
    world.Settled := by
  intro hdone hidle record hrecord hrecorded
  have hpromised : world.promised owner = false := by
    apply List.any_eq_false.mpr
    intro thread hmem
    cases thread with
    | done answer => exact nofun
    | _ => exact nomatch hdone _ hmem
  have hfresh : world.cache = none ∨ world.cache = world.store := by
    rcases h.fresh with hnone | heq | ⟨call, thread, hcall, hbehind⟩
    · exact .inl hnone
    · exact .inr heq
    · cases thread with
      | done answer => cases hbehind
      | _ => exact nomatch hdone _ (List.mem_of_getElem? hcall)
  have hstore : world.store = some record := by
    rcases hrecord with hstore | hcache
    · exact hstore
    · rcases hfresh with hnone | heq
      · rw [hcache] at hnone
        cases hnone
      · rw [← heq]
        exact hcache
  cases hterminal : record.status.terminal with
  | true => rfl
  | false =>
    have hripe : record.ripe = true := by
      have hparts : (record.status == .cancelling || record.error.isSome
          || record.result.isSome) = true := by
        rcases hrecorded with hcancelling | herror | hresult
        · rw [hcancelling]
          rfl
        · rw [herror, Bool.or_true, Bool.true_or]
        · rw [hresult, Bool.or_true]
      rw [TaskRecord.ripe, TaskStatus.active_eq_not_terminal, hterminal, hparts]
      rfl
    rw [← ripe_of_store hstore] at hripe
    rw [h.promised hripe hidle] at hpromised
    cases hpromised

/-- The record is there after the step. -/
def Remains (owner : TaskOwner) (world : World) (label : Label) : Prop :=
  forall next, step owner world label = some next -> next.seen ≠ none

theorem precedes_of_run {owner : TaskOwner} {last : World} {labels : List Label}
    (hlives : Interleaving.Meets (step owner) (Lives owner) world labels)
    (hremains : Interleaving.Meets (step owner) (Remains owner) world labels)
    (hrun : run (step owner) world labels = some last)
    {before after : TaskRecord} (hbefore : world.seen = some before)
    (hafter : last.seen = some after) : before.status.Precedes after.status := by
  induction labels generalizing world before with
  | nil =>
    cases hrun
    rw [hbefore] at hafter
    cases hafter
    exact TaskStatus.Precedes.refl _
  | cons label labels ih =>
    rcases (run_cons_eq_some_iff (step owner)).mp hrun with
      ⟨next, hnext, hrest⟩
    rcases ne_none_iff_exists'.mp (hremains.1 next hnext) with ⟨middle, hmiddle⟩
    have hfirst := (hlives.1 next hnext).seen before middle hbefore hmiddle
    exact hfirst.trans (ih (hlives.2 next hnext) (hremains.2 next hnext) hrest hmiddle)

/-- Every step of an orderly run follows the order of a life, the status that is seen
never goes back while the record is there, and a recorded outcome becomes terminal once
nothing is left to do. -/
theorem task_lifecycle {owner : TaskOwner} {start world : World} {labels : List Label}
    (hbooted : start.Booted)
    (hmeets : Interleaving.Meets (step owner) (Orderly owner) start labels)
    (hrun : run (step owner) start labels = some world) :
    Interleaving.Meets (step owner) (Lives owner) start labels ∧ world.Settled ∧
      forall (earlier later : List Label) (middle : World) (before after : TaskRecord),
        labels = earlier ++ later ->
        run (step owner) start earlier = some middle ->
        Interleaving.Meets (step owner) (Remains owner) middle later ->
        middle.seen = some before -> world.seen = some after ->
        before.status.Precedes after.status := by
  have hstart : Sound owner start := Sound.of_booted hbooted
  have hlives : Interleaving.Meets (step owner) (Lives owner) start labels :=
    meets_of_inv (step owner)
      (fun h horderly hstep => h.step horderly hstep) Sound.lives hstart hmeets
  have hend : Sound owner world := run_inv (step owner)
      (fun h horderly hstep => h.step horderly hstep) hstart hmeets hrun
  refine ⟨hlives, hend.settled, ?_⟩
  rintro earlier later middle before after rfl hearlier hremains hbefore hafter
  rw [run_append (step owner) hearlier] at hrun
  exact precedes_of_run (meets_of_append (step owner) hlives hearlier)
    hremains hrun hbefore hafter

/-!
# Two runs
-/

namespace Sample

def owner : TaskOwner :=
  { accountId := "a".toList
    userId := "u".toList
    accountId_ne := by decide
    userId_ne := by decide }

def request : CreateRequest :=
  { taskType := "add_resource".toList
    createdAt := 1
    updatedAt := 1 }

def entry : Str × Str := ("semantic".toList, "w".toList)

/-- A task is created, its work queued, its outcome recorded, and the work acknowledged:
the acknowledgement finalizes the task. -/
def acknowledged : List Label :=
  [.invoke (.create request) {}, .advance 0 1, .advance 0 1, .advance 0 1, .advance 0 1,
    .advance 0 1, .register entry,
    .invoke (Op.complete "{}".toList none) {}, .advance 1 2, .advance 1 2, .advance 1 2,
    .advance 1 2, .evict, .removeWork entry owner.filter, .advance 2 3, .advance 2 3,
    .advance 2 3, .advance 2 3, .advance 2 3, .advance 2 3]

/-- The record is evicted and read for its authentication.  The read comes back after the
task has completed. -/
def completed : List Label :=
  [.invoke (.create request) {}, .advance 0 1, .advance 0 1, .advance 0 1, .advance 0 1,
    .advance 0 1, .evict, .getTaskAuth "a".toList "u".toList, .advance 1 2,
    .invoke (Op.complete "{}".toList none) owner.filter, .advance 2 3, .advance 2 3,
    .advance 2 3, .advance 2 3, .advance 2 3, .advance 2 3, .advance 2 3, .advance 2 3,
    .advance 2 3]

def status (world : World) : Option TaskStatus := world.seen.map TaskRecord.status

end Sample

open Sample

theorem task_lifecycle_acknowledged :
    exists world : World,
      run (step owner) {} acknowledged = some world ∧
        world.seen.map TaskRecord.status = some .completed ∧
        Interleaving.Meets (step owner) (Lives owner) {} acknowledged ∧
        world.Settled := by
  have hview : (run (step owner) {} acknowledged).map Sample.status =
      some (some .completed) := by decide +kernel
  rcases Option.map_eq_some_iff.mp hview with ⟨world, hrun, hseen⟩
  have hbooted : World.Booted {} := ⟨rfl, rfl, rfl, nofun⟩
  have hmeets : Interleaving.Meets (step owner) (Orderly owner) {} acknowledged := by
    decide +kernel
  have h := task_lifecycle hbooted hmeets hrun
  exact ⟨world, hrun, hseen, h.1, h.2.1⟩

/-- A completed task is seen as pending again. -/
theorem completed_task_seen_pending :
    exists (middle world : World) (before after : TaskRecord),
      run (step owner) {} completed = some middle ∧
        middle.seen = some before ∧ before.status = .completed ∧
        step owner middle (.advance 1 4) = some world ∧
        world.seen = some after ∧ after.status = .pending := by
  have hview : (run (step owner) {} completed).map
      (fun middle => (Sample.status middle,
        (step owner middle (.advance 1 4)).map Sample.status)) =
      some (some .completed, some (some .pending)) := by decide +kernel
  rcases Option.map_eq_some_iff.mp hview with ⟨middle, hrun, heq⟩
  rw [Prod.mk.injEq] at heq
  rcases Option.map_eq_some_iff.mp heq.1 with ⟨before, hbefore, hstatus⟩
  rcases Option.map_eq_some_iff.mp heq.2 with ⟨world, hstep, hlast⟩
  rcases Option.map_eq_some_iff.mp hlast with ⟨after, hafter, hpending⟩
  exact ⟨middle, world, before, after, hrun, hbefore, hstatus, hstep, hafter, hpending⟩

end Tracker
end OpenViking
