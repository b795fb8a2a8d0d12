import OpenViking.Tracker.CallsSound

/-!
# Steps keep the invariant
-/

namespace OpenViking
namespace Tracker

open World Thread

open Paths (Str)

theorem getElem?_setThread {world : World} {call : Nat} {old : Thread}
    (hcall : world.threads[call]? = some old) (thread : Thread) :
    (world.threads.set call thread)[call]? = some thread :=
  List.getElem?_set_self (List.getElem?_eq_some_iff.mp hcall).1

namespace Held

variable {owner : TaskOwner} {world next : World} {call : Nat}

theorem sound_of_fresh (h : Held world call) (thread : Thread)
    (hthreads : next.threads = world.threads.set call thread)
    (hlock : thread.holds = true -> next.lock = some call) (hfits : thread.Fits next)
    (hfresh : next.cache = none ∨ next.cache = next.store)
    (hpromised : next.ripe = true -> next.hasWork = false ->
      next.promised owner = true) :
    Sound owner next := by
  apply h.sound thread hthreads hlock hfits
  · rcases hfresh with hnone | heq
    · exact .inl hnone
    · exact .inr (.inl heq)
  · exact precedes_of_fresh hfresh
  · exact hpromised

theorem perform (h : Held world call)
    (hfresh : world.cache = none ∨ world.cache = world.store)
    {op : Op} {asked : OwnerFilter} {move : Move} (hmove : move.Fits world op)
    (hpromised : world.ripe = true -> world.hasWork = false ->
      (world.setThread call (move.thread op asked)).promised owner = true) :
    Sound owner (world.perform call op asked move) := by
  cases move with
  | write record =>
    have hfits : (writing op asked record).Fits
        (world.setThread call (.writing op asked record)) :=
      Thread.Fits.congr hmove rfl (fun hnext _ => hnext)
    exact h.sound_of_fresh _ rfl (fun _ => h.lock) hfits hfresh hpromised
  | publish record =>
    exact h.sound_of_fresh _ rfl nofun trivial (.inr hmove.symm) hpromised
  | check =>
    exact h.sound_of_fresh _ rfl nofun trivial hfresh hpromised
  | delete => exact h.sound_of_fresh _ rfl (fun _ => h.lock) trivial hfresh hpromised
  | finish answer =>
    exact h.sound_of_fresh _ rfl nofun trivial hfresh hpromised

end Held

namespace Sound

variable {owner : TaskOwner} {world : World} {call now : Nat}

variable {asked : OwnerFilter} {op : Op} {task : Option TaskRecord}

/-- The first look of a call at the record it is about to work on. -/
theorem decide_waiting (h : Sound owner world)
    (hcall : world.threads[call]? = some (.waiting op asked)) (hlock : world.lock = none)
    (htask : forall record, task = some record -> world.store = some record)
    (hnone : (exists request, op = .create request) -> task = none ->
      world.store = none)
    (hkeeps : world.ripe = true -> world.hasWork = false -> op.promises = true ->
      (exists record, task = some record) ∨
        ((world.decide owner now op asked none).thread op asked).willFinalize owner = true ∨
        world.spares owner call) :
    Sound owner ((world.setLock (some call)).perform call op asked
      ((world.setLock (some call)).decide owner now op asked task)) := by
  apply (h.held_of_unlocked hlock).perform (h.fresh_of_unlocked hlock)
  · exact decide_fits htask hnone
  intro hripe hidle
  apply h.promised_setThread hcall _ hripe hidle
  intro _ _ hold
  rw [willFinalize_waiting] at hold
  cases htask' : task with
  | some record =>
    have hrecord : record.ripe = true := by
      rw [← ripe_of_store (htask record htask')]
      exact hripe
    exact .inl (willFinalize_decide hold hrecord hidle)
  | none =>
    rcases hkeeps hripe hidle hold with ⟨record, hrecord⟩ | hwill | hspares
    · rw [htask'] at hrecord
      cases hrecord
    · exact .inl hwill
    · exact .inr (hspares hripe hidle)

theorem promises_cases (h : op.promises = true) :
    (exists report, op = .finalize report) ∨
      exists result error resourceId, op = .recordOutcome result error resourceId := by
  cases op with
  | finalize report => exact .inl ⟨report, rfl⟩
  | recordOutcome result error resourceId => exact .inr ⟨result, error, resourceId, rfl⟩
  | _ => cases h

section

variable (h : Sound owner world)

include h

section

variable (hcall : world.threads[call]? = some (.waiting op asked))

include hcall

theorem promised_of_waiting (hop : op.promises = false)
    (thread : Thread) (hripe : world.ripe = true) (hidle : world.hasWork = false) :
    (world.setThread call thread).promised owner = true := by
  apply promised_setThread_of_promised hcall _ (h.promised hripe hidle)
  rw [willFinalize_waiting]
  exact hop

theorem loadForUpdate (hlock : world.lock = none)
    (hcreate : forall request, op ≠ .create request)
    (horderly : (waiting op asked).Orderly owner world call) :
    Sound owner ((world.setLock (some call)).loadForUpdate owner call now op asked) := by
  have hfresh := h.fresh_of_unlocked hlock
  have hnone : forall task : Option TaskRecord, (exists request, op = .create request) ->
      task = none -> world.store = none := by
    rintro task ⟨request, hop⟩
    exact absurd hop (hcreate request)
  unfold World.loadForUpdate
  cases hcache : world.cache with
  | some task =>
    have hstore : world.store = some task := by
      rcases hfresh with hempty | heq
      · rw [hcache] at hempty
        cases hempty
      · rw [← heq, hcache]
    rw [show (world.setLock (some call)).cache = some task from hcache]
    dsimp only
    apply h.decide_waiting hcall hlock _ (hnone _)
    · intro hripe hidle hop
      rcases promises_cases hop with ⟨report, rfl⟩ | ⟨result, error, resourceId, rfl⟩
      · rcases horderly with hfinds | hspares
        · rw [World.finds, hcache] at hfinds
          dsimp only at hfinds
          rw [if_pos hfinds]
          exact .inl ⟨task, rfl⟩
        · exact .inr (.inr hspares)
      · exact .inr (.inl rfl)
    · intro record hrecord
      split at hrecord
      · rw [hstore, hrecord]
      · cases hrecord
  | none =>
    rw [show (world.setLock (some call)).cache = none from hcache]
    dsimp only
    split
    case isTrue =>
      have hheld : Held (world.setLock (some call)) call := h.held_of_unlocked hlock
      refine hheld.sound_of_fresh (.reading op asked) rfl (fun _ => rfl) trivial
        (.inl hcache) ?_
      intro hripe hidle
      apply h.promised_setThread hcall _ hripe hidle
      intro _ _ hold
      rw [willFinalize_waiting] at hold
      rcases promises_cases hold with ⟨report, rfl⟩ | ⟨result, error, resourceId, rfl⟩
      · rcases horderly with hfinds | hspares
        · rw [World.finds, hcache] at hfinds
          exact .inl hfinds
        · exact .inr (hspares hripe hidle)
      · exact .inl rfl
    case isFalse hparts =>
      apply h.decide_waiting hcall hlock _ (hnone _)
      · intro hripe hidle hop
        rcases promises_cases hop with
          ⟨report, rfl⟩ | ⟨result, error, resourceId, rfl⟩
        · rcases horderly with hfinds | hspares
          · rw [World.finds, hcache] at hfinds
            exact absurd (TaskOwner.parts_of_names hfinds) hparts
          · exact .inr (.inr hspares)
        · exact .inr (.inl rfl)
      · exact nofun

theorem enter (hlock : world.lock = none)
    (horderly : (waiting op asked).Orderly owner world call) :
    Sound owner ((world.setLock (some call)).enter owner call now op asked) := by
  have hheld : Held (world.setLock (some call)) call := h.held_of_unlocked hlock
  have hfresh := h.fresh_of_unlocked hlock
  cases op with
  | create request =>
    unfold enter
    cases hcache : world.cache with
    | some existing =>
      rw [show (world.setLock (some call)).cache = some existing from hcache]
      exact hheld.perform hfresh trivial (h.promised_of_waiting hcall rfl _)
    | none =>
      rw [show (world.setLock (some call)).cache = none from hcache]
      exact hheld.sound_of_fresh _ rfl (fun _ => rfl) trivial (.inl hcache)
        (h.promised_of_waiting hcall rfl _)
  | deleteExpired cutoff =>
    apply hheld.perform hfresh _ (h.promised_of_waiting hcall rfl _)
    exact delete_fits (.inl ⟨cutoff, rfl⟩)
  | deleteUser =>
    apply hheld.perform hfresh _ (h.promised_of_waiting hcall rfl _)
    exact delete_fits (.inr rfl)
  | _ => exact h.loadForUpdate hcall hlock (fun _ heq => by cases heq) horderly

end

theorem reading (hcall : world.threads[call]? = some (.reading op asked)) :
    Sound owner (world.setThread call
      (.loaded op asked (owner.storeGet world.store (op.asked owner asked)))) := by
  have hheld : Held world call := h.held hcall rfl
  have hcreate : (exists request, op = .create request) ->
      owner.storeGet world.store (op.asked owner asked) = none ->
        world.store = none := by
    rintro ⟨request, rfl⟩ hnone
    rwa [show Op.asked owner asked (.create request) = owner.filter from rfl,
      owner.storeGet_filter] at hnone
  refine hheld.sound_of_fresh (.loaded op asked _) rfl (fun _ => hheld.lock)
    ⟨fun record => TaskOwner.eq_store_of_storeGet owner, hcreate⟩
    (h.fresh_of_held hcall rfl rfl) ?_
  intro hripe hidle
  apply h.promised_setThread hcall _ hripe hidle
  intro _ _ hold
  rcases promises_cases (promises_of_willFinalize_reading hold) with
    ⟨report, rfl⟩ | ⟨result, error, resourceId, rfl⟩
  · have hnames : owner.names asked = true := hold
    have hget : owner.storeGet world.store asked = world.store := by
      rw [TaskOwner.storeGet, if_pos hnames]
    have hsome : world.store.isSome = true := by
      cases hstore : world.store with
      | none =>
        have hripe : world.ripe = true := hripe
        rw [ripe, hstore] at hripe
        cases hripe
      | some record => rfl
    apply Or.inl
    show (owner.storeGet world.store asked).isSome = true
    rw [hget]
    exact hsome
  · exact .inl rfl

theorem loaded (hcall : world.threads[call]? = some (.loaded op asked task)) :
    Sound owner (world.perform call op asked (world.decide owner now op asked task)) := by
  have hfits : (Thread.loaded op asked task).Fits world := h.fits hcall
  have hheld : Held world call := h.held hcall rfl
  apply hheld.perform (h.fresh_of_held hcall rfl rfl) (decide_fits hfits.1 hfits.2)
  intro hripe hidle
  apply h.promised_setThread hcall _ hripe hidle
  intro _ _ hold
  have hop := promises_of_willFinalize_loaded hold
  apply Or.inl
  cases task with
  | some record =>
    have hrecord : record.ripe = true := by
      rw [← ripe_of_store (hfits.1 record rfl)]
      exact hripe
    exact willFinalize_decide hop hrecord hidle
  | none =>
    rcases promises_cases hop with ⟨report, rfl⟩ | ⟨result, error, resourceId, rfl⟩
    · cases hold
    · rfl

/-- The store write of the call with the lock. -/
theorem writing {record : TaskRecord}
    (hcall : world.threads[call]? = some (.writing op asked record)) :
    Sound owner ((world.setStore (some record)).setThread call
      (.written op asked record)) := by
  have hfits : WriteFits world op record := h.fits hcall
  have hheld : Held world call := h.held hcall rfl
  refine hheld.sound (.written op asked record) rfl (fun _ => hheld.lock)
    ⟨rfl, hfits.idle⟩ ?_ ?_ ?_
  · exact .inr (Or.inr ⟨getElem?_setThread hcall _, rfl⟩)
  · intro cached stored hcached hstored
    cases hstored
    rcases h.fresh_of_held hcall rfl rfl with hnone | heq
    · rw [show world.cache = some cached from hcached] at hnone
      cases hnone
    · exact hfits.precedes cached (by rw [← heq]; exact hcached)
  · intro hripe hidle
    have hwritten : (exists result error resourceId,
        op = .recordOutcome result error resourceId) ∨ op = .cancel ->
        (written op asked record).willFinalize owner = true := by
      rintro (⟨result, error, resourceId, rfl⟩ | rfl)
      · rfl
      · rfl
    rcases hfits.ripe hripe with ⟨hbefore, hop⟩ | hop
    · apply h.promised_setThread hcall _ hbefore hidle
      intro _ _ hold
      apply Or.inl
      apply hwritten
      cases op with
      | cancel => exact .inr rfl
      | finalize report => cases hop
      | recordOutcome result error resourceId => cases hop
      | _ => cases hold
    · exact Tracker.promised_setThread hcall (hwritten hop)

theorem written {record : TaskRecord}
    (hcall : world.threads[call]? = some (.written op asked record)) :
    Sound owner (world.publish owner call op asked record) := by
  have hfits : (Thread.written op asked record).Fits world := h.fits hcall
  have hheld : Held world call := h.held hcall rfl
  have hfresh : some record = none ∨ some record = world.store := .inr hfits.1.symm
  cases op with
  | recordOutcome result error resourceId =>
    exact hheld.sound_of_fresh _ rfl nofun trivial hfresh
      (fun _ _ => Tracker.promised_setThread hcall rfl)
  | cancel =>
    exact hheld.sound_of_fresh _ rfl nofun trivial hfresh
      (fun _ _ => Tracker.promised_setThread hcall rfl)
  | _ =>
    exact hheld.sound_of_fresh _ rfl nofun trivial hfresh
      (fun hripe hidle => promised_setThread_of_promised hcall rfl
        (h.promised hripe hidle))

theorem deleting (hcall : world.threads[call]? = some (.deleting op)) :
    Sound owner ((world.setStore none).setThread call (.deleted op)) := by
  have hheld : Held world call := h.held hcall rfl
  refine hheld.sound (.deleted op) rfl (fun _ => hheld.lock) rfl ?_ ?_ ?_
  · exact .inr (.inr ⟨getElem?_setThread hcall _, rfl⟩)
  · exact nofun
  · exact nofun

theorem deleted (hcall : world.threads[call]? = some (.deleted op)) :
    Sound owner (world.forget call op) := by
  have hheld : Held world call := h.held hcall rfl
  cases op with
  | _ =>
    exact hheld.sound_of_fresh _ rfl nofun trivial
      (.inl rfl) (fun hripe hidle => promised_setThread_of_promised hcall rfl
        (h.promised hripe hidle))

end

/-!
# Steps without the lock
-/

variable {next : World}

theorem checking (h : Sound owner world) {report : Bool}
    (hcall : world.threads[call]? = some (.checking report asked))
    (hnext : world.advance owner call now (.checking report asked) = some next) :
    Sound owner next := by
  unfold advance at hnext
  dsimp only at hnext
  split at hnext
  case isTrue hwork =>
    cases hnext
    apply h.setFree hcall rfl rfl
    intro _ hidle
    rw [hwork] at hidle
    cases hidle
  case isFalse =>
    cases hnext
    exact h.setFree hcall rfl rfl (fun _ _ => Tracker.promised_setThread hcall rfl)

theorem setIdle (h : Sound owner world) {old thread : Thread}
    (hcall : world.threads[call]? = some old) (hold : old.holds = false)
    (hwill : old.willFinalize owner = false) (hfree : thread.holds = false) :
    Sound owner (world.setThread call thread) :=
  h.setFree hcall hold hfree fun hripe hidle =>
    promised_setThread_of_promised hcall hwill (h.promised hripe hidle)

theorem mergeLoaded (h : Sound owner world)
    (hstored : forall record, task = some record -> world.replaces record = true ->
      world.store = some record) :
    Sound owner (world.mergeLoaded task) := by
  cases task with
  | none => exact h
  | some record =>
    unfold mergeLoaded
    dsimp only
    split
    case isTrue hreplaces =>
      exact h.setCache (.inr (hstored record rfl hreplaces).symm)
    case isFalse => exact h

theorem afterMerge_free (lookup : Lookup) (task : Option TaskRecord) :
    (world.afterMerge owner task lookup).holds = false := by
  cases lookup with
  | get asked => rfl
  | list asked => rfl
  | deleteUser =>
    unfold afterMerge
    dsimp only
    split
    · rfl
    · split
      · rfl
      · rfl

theorem mergeLoaded_threads (task : Option TaskRecord) :
    (world.mergeLoaded task).threads = world.threads := by
  cases task with
  | none => rfl
  | some record =>
    unfold World.mergeLoaded
    dsimp only
    split
    · rfl
    · rfl

theorem merging (h : Sound owner world) {lookup : Lookup}
    (hcall : world.threads[call]? = some (.merging lookup task))
    (horderly : (merging lookup task).Orderly owner world call) :
    Sound owner ((world.mergeLoaded task).setThread call
      ((world.mergeLoaded task).afterMerge owner task lookup)) := by
  have hmerged : Sound owner (world.mergeLoaded task) := by
    apply h.mergeLoaded
    rintro record rfl hreplaces
    exact horderly hreplaces
  have hsame : (world.mergeLoaded task).threads[call]? = some (.merging lookup task) := by
    rw [mergeLoaded_threads]
    exact hcall
  exact hmerged.setIdle hsame rfl rfl (afterMerge_free lookup task)

theorem authPublishing (h : Sound owner world)
    (hcall : world.threads[call]? = some (.authPublishing asked task))
    (horderly : (authPublishing asked task).Orderly owner world call) :
    Sound owner ((world.publishLoaded task).setThread call
      (.done (authOf owner asked task))) := by
  cases task with
  | none => exact h.setIdle hcall rfl rfl rfl
  | some record =>
    have hpublished : Sound owner (world.setCache (some record)) :=
      h.setCache (.inr (Eq.symm horderly))
    have hsame : (world.setCache (some record)).threads[call]? =
        some (.authPublishing asked (some record)) := hcall
    exact hpublished.setIdle hsame rfl rfl rfl

theorem advance (h : Sound owner world) {thread : Thread}
    (hcall : world.threads[call]? = some thread)
    (horderly : thread.Orderly owner world call)
    (hnext : world.advance owner call now thread = some next) : Sound owner next := by
  cases thread with
  | checking report asked => exact h.checking hcall hnext
  | waiting op asked =>
    unfold World.advance at hnext
    dsimp only at hnext
    split at hnext
    case isTrue hlock =>
      cases hnext
      exact h.enter hcall hlock horderly
    case isFalse => cases hnext
  | reading op asked =>
    cases hnext
    exact h.reading hcall
  | loaded op asked task =>
    cases hnext
    exact h.loaded hcall
  | writing op asked record =>
    cases hnext
    exact h.writing hcall
  | written op asked record =>
    cases hnext
    exact h.written hcall
  | deleting op =>
    cases hnext
    exact h.deleting hcall
  | deleted op =>
    cases hnext
    exact h.deleted hcall
  | listing lookup =>
    cases hnext
    exact h.setIdle hcall rfl rfl rfl
  | merging lookup task =>
    cases hnext
    exact h.merging hcall horderly
  | authReading asked =>
    cases hnext
    exact h.setIdle hcall rfl rfl rfl
  | authPublishing asked task =>
    cases hnext
    exact h.authPublishing hcall horderly
  | done answer => cases hnext

/-!
# The work index
-/

theorem filter_eq_of_not_contains {work : List (Str × Str)} {entry : Str × Str}
    (h : ¬ (work.contains entry) = true) :
    work.filter (fun other => other != entry) = work := by
  apply List.filter_eq_self.mpr
  intro other hmem
  rw [bne_iff_ne]
  rintro rfl
  exact h (List.contains_iff_mem.mpr hmem)

theorem removeWork (h : Sound owner world) (entry : Str × Str) (asked : OwnerFilter) :
    Sound owner (world.removeWork entry asked) := by
  let removed := world.setWork (world.work.filter fun other => other != entry)
  have hwork : removed.hasWork = true -> world.hasWork = true := by
    intro hremoved
    rcases Bool.or_eq_true_iff.mp hremoved with hsome | hsome
    · apply Bool.or_eq_true_iff.mpr
      apply Or.inl
      cases hempty : world.work with
      | nil =>
        have hnone : removed.work = [] := by
          show world.work.filter _ = []
          rw [hempty]
          rfl
        rw [hnone] at hsome
        cases hsome
      | cons first rest => rfl
    · exact Bool.or_eq_true_iff.mpr (Or.inr hsome)
  unfold World.removeWork
  dsimp only
  split
  case isTrue =>
    have hspawned : Sound owner (world.spawn (.checking false asked)) := h.spawn rfl
    exact hspawned.setIndex rfl rfl rfl rfl (fun hnext => .inl (hwork hnext))
      (fun _ _ => promised_spawn rfl)
  case isFalse hkept =>
    have hpromised : removed.ripe = true -> removed.hasWork = false ->
        removed.promised owner = true := by
      intro hripe hidle
      apply h.promised hripe
      rw [Bool.and_eq_true, not_and, Bool.not_eq_true'] at hkept
      have hcontains : ¬ (world.work.contains entry) = true :=
        fun hcontains => hkept hcontains hidle
      have hsame : removed = world := by
        show world.setWork (world.work.filter _) = world
        rw [filter_eq_of_not_contains hcontains]
        rfl
      rw [← hsame]
      exact hidle
    exact h.setIndex rfl rfl rfl rfl (fun hnext => .inl (hwork hnext)) hpromised

theorem addWork (h : Sound owner world) (hstore : next.store = world.store)
    (hcache : next.cache = world.cache) (hthreads : next.threads = world.threads)
    (hlock : next.lock = world.lock) (hconcluding : world.concluding = false)
    (hwork : next.hasWork = true) : Sound owner next := by
  apply h.setIndex hstore hcache hthreads hlock (fun _ => .inr hconcluding)
  intro _ hidle
  rw [hwork] at hidle
  cases hidle

theorem isEmpty_insert {α : Type} [BEq α] [LawfulBEq α] (x : α) (xs : List α) :
    (xs.insert x).isEmpty = false :=
  List.isEmpty_eq_false_iff.mpr (List.ne_nil_of_mem List.mem_insert_self)

theorem hasWork_insert (entry : Str × Str) :
    (world.setWork (world.work.insert entry)).hasWork = true := by
  show (!(world.work.insert entry).isEmpty || _) = true
  rw [isEmpty_insert]
  rfl

theorem hasWork_insertRunning (coroutine : Nat) :
    (world.setRunning (world.running.insert coroutine)).hasWork = true := by
  show (_ || !(world.running.insert coroutine).isEmpty) = true
  rw [isEmpty_insert]
  exact Bool.or_true _

theorem hasWork_of_unregisterActive {coroutine : Nat}
    (h : (world.unregisterActive coroutine).hasWork = true) : world.hasWork = true := by
  rcases Bool.or_eq_true_iff.mp h with hsome | hsome
  · exact Bool.or_eq_true_iff.mpr (Or.inl hsome)
  · apply Bool.or_eq_true_iff.mpr
    apply Or.inr
    cases hempty : world.running with
    | nil =>
      rw [unregisterActive, hempty] at hsome
      cases hsome
    | cons first rest => rfl

theorem unregisterActive (h : Sound owner world) {coroutine : Nat}
    (horderly : Orderly owner world (.unregisterActive coroutine)) :
    Sound owner (world.unregisterActive coroutine) := by
  have hkept : world.ripe = true -> (world.unregisterActive coroutine).hasWork = false ->
      world.promised owner = true := by
    intro hripe hidle
    rcases horderly with hwork | hbefore | hnot | hpromised
    · rw [hwork] at hidle
      cases hidle
    · exact h.promised hripe hbefore
    · rw [hnot] at hripe
      cases hripe
    · exact hpromised
  have hwork : (world.unregisterActive coroutine).hasWork = true ->
      world.hasWork = true ∨ world.concluding = false :=
    fun hnext => .inl (hasWork_of_unregisterActive hnext)
  exact h.setIndex rfl rfl rfl rfl hwork hkept

theorem unregisterRunningTask (h : Sound owner world) (coroutine : Nat) :
    Sound owner (world.unregisterRunningTask coroutine) := by
  have hspawned : Sound owner (world.spawn (.checking false {})) := h.spawn rfl
  exact hspawned.setIndex rfl rfl rfl rfl
    (fun hnext => .inl (hasWork_of_unregisterActive hnext))
    (fun _ _ => promised_spawn rfl)

theorem beginOp_free (op : Op) (asked : OwnerFilter) :
    (world.beginOp op asked).holds = false := by
  cases op with
  | deleteExpired cutoff =>
    unfold beginOp
    dsimp only
    split
    · rfl
    · rfl
  | _ => rfl

theorem beginLookup_free (lookup : Lookup) :
    (world.beginLookup owner lookup).holds = false := by
  cases lookup with
  | get asked =>
    unfold beginLookup
    dsimp only
    split
    · rfl
    · rfl
  | list asked =>
    unfold beginLookup
    dsimp only
    split
    · rfl
    · rfl
  | deleteUser => rfl

theorem beginAuth_free (asked : OwnerFilter) :
    (world.beginAuth owner asked).holds = false := by
  unfold beginAuth
  split
  · rfl
  · rfl

theorem step (h : Sound owner world) {label : Label}
    (horderly : Orderly owner world label)
    (hstep : Tracker.step owner world label = some next) : Sound owner next := by
  cases label with
  | invoke op asked =>
    cases hstep
    exact h.spawn (beginOp_free op asked)
  | lookup lookup =>
    cases hstep
    exact h.spawn (beginLookup_free lookup)
  | getTaskAuth accountId userId =>
    unfold Tracker.step at hstep
    dsimp only at hstep
    split at hstep
    · cases hstep
    · cases hstep
      exact h.spawn (beginAuth_free _)
  | evict =>
    cases hstep
    exact h.setCache (.inl rfl)
  | register entry =>
    cases hstep
    unfold register
    split
    case isTrue => exact h
    case isFalse hrequested =>
      rcases horderly with hcancelled | hconcluding
      · exact absurd hcancelled hrequested
      · exact h.addWork rfl rfl rfl rfl hconcluding (hasWork_insert entry)
  | removeWork entry asked =>
    cases hstep
    exact h.removeWork entry asked
  | rollbackAck entry =>
    cases hstep
    exact h.addWork rfl rfl rfl rfl horderly (hasWork_insert entry)
  | registerActive coroutine =>
    cases hstep
    unfold registerActive
    split
    case isTrue => exact h
    case isFalse hrequested =>
      rcases horderly with hcancelled | hconcluding
      · exact absurd hcancelled hrequested
      · exact h.addWork rfl rfl rfl rfl hconcluding (hasWork_insertRunning coroutine)
  | unregisterActive coroutine =>
    cases hstep
    exact h.unregisterActive horderly
  | unregisterRunningTask coroutine =>
    cases hstep
    exact h.unregisterRunningTask coroutine
  | recordFailure error =>
    cases hstep
    exact h.setFailure _
  | advance call now =>
    unfold Tracker.step at hstep
    dsimp only at hstep
    cases hcall : world.threads[call]? with
    | none =>
      rw [hcall] at hstep
      cases hstep
    | some thread =>
      rw [hcall] at hstep
      exact h.advance hcall (horderly thread hcall) hstep

end Sound

end Tracker
end OpenViking
