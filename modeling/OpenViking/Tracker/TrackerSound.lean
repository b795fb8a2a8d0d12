import OpenViking.Tracker.TaskTracker

/-!
# The life of a task

What a run of the tracker keeps, and the steps after which it does not.
-/

namespace OpenViking
namespace Tracker

open List

open Paths (Str)

namespace World

/-- The record that a reader of the tracker sees: the cached one, else the stored one. -/
def seen (world : World) : Option TaskRecord := world.cache.or world.store

/-- The stored record has an outcome and waits for its terminal status. -/
def ripe (world : World) : Bool := world.store.any TaskRecord.ripe

end World

def Thread.isDone : Thread -> Bool
  | .done _ => true
  | _ => false

/-- A call that has decided on a terminal status and not yet shown it to all readers. -/
def Thread.concludes : Thread -> Bool
  | .writing _ _ record | .written _ _ record => record.status.terminal
  | _ => false

/-- A call whose finalization will still find the record. -/
def Thread.willFinalize (owner : TaskOwner) : Thread -> Bool
  | .checking _ _ => true
  | .waiting (.finalize _) _ | .waiting (.recordOutcome _ _ _) _ => true
  | .reading (.finalize _) asked => owner.names asked
  | .reading (.recordOutcome _ _ _) _ => true
  | .loaded (.finalize _) _ task => task.isSome
  | .loaded (.recordOutcome _ _ _) _ _ => true
  | .writing (.finalize _) _ _ | .writing (.recordOutcome _ _ _) _ _
  | .writing .cancel _ _ => true
  | .written (.recordOutcome _ _ _) _ _ | .written .cancel _ _ => true
  | _ => false

namespace World

variable (owner : TaskOwner)

def promised (world : World) : Bool := world.threads.any (Thread.willFinalize owner)

def concluding (world : World) : Bool := world.threads.any Thread.concludes

/-- A finalization that starts now comes to the record. -/
def finds (world : World) (asked : OwnerFilter) : Bool :=
  match world.cache with
  | some _ => owner.matchesOwner asked
  | none => owner.names asked

/-- Nothing is lost when this call does not finalize the task. -/
def spares (world : World) (call : Nat) : Prop :=
  world.ripe = true -> world.hasWork = false ->
    (world.setThread call (.done .nothing)).promised owner = true

instance decidableSpares (world : World) (call : Nat) :
    Decidable (world.spares owner call) :=
  inferInstanceAs (Decidable (world.ripe = true -> world.hasWork = false ->
    (world.setThread call (.done .nothing)).promised owner = true))

end World

/-!
# The condition
-/

/-- A finalization comes to the record or another one does, and a record that is loaded
without the lock goes into the cache only while it is the stored one. -/
def Thread.Orderly (owner : TaskOwner) (world : World) (call : Nat) : Thread -> Prop
  | .waiting (.finalize _) asked =>
    world.finds owner asked = true ∨ world.spares owner call
  | .merging _ (some record) =>
    world.replaces record = true -> world.store = some record
  | .authPublishing _ (some record) => world.store = some record
  | _ => True

/-- No work comes up while a terminal status is being published, and the end of a
coroutine that no finalization follows leaves nothing to finalize. -/
def Orderly (owner : TaskOwner) (world : World) : Label -> Prop
  | .register _ | .registerActive _ =>
    world.cancellationRequested = true ∨ world.concluding = false
  | .rollbackAck _ => world.concluding = false
  | .unregisterActive coroutine =>
    (world.unregisterActive coroutine).hasWork = true ∨ world.hasWork = false ∨
      world.ripe = false ∨ world.promised owner = true
  | .advance call _ =>
    forall thread, thread ∈ world.threads[call]? -> thread.Orderly owner world call
  | _ => True

instance decidableThreadOrderly (owner : TaskOwner) (world : World) (call : Nat) :
    forall thread : Thread, Decidable (thread.Orderly owner world call)
  | .waiting (.finalize _) asked =>
    inferInstanceAs
      (Decidable (world.finds owner asked = true ∨ world.spares owner call))
  | .merging _ (some record) =>
    inferInstanceAs
      (Decidable (world.replaces record = true -> world.store = some record))
  | .authPublishing _ (some record) =>
    inferInstanceAs (Decidable (world.store = some record))
  | .waiting (.create _) _ | .waiting (.start _) _ | .waiting (.updateStage _) _
  | .waiting (.recordOutcome _ _ _) _ | .waiting .cancel _
  | .waiting (.deleteExpired _) _ | .waiting .deleteUser _
  | .merging _ none | .authPublishing _ none | .checking _ _ | .reading _ _
  | .loaded _ _ _ | .writing _ _ _ | .written _ _ _ | .deleting _ | .deleted _
  | .listing _ | .authReading _ | .done _ => isTrue trivial

instance decidableOrderly (owner : TaskOwner) (world : World) :
    forall label : Label, Decidable (Orderly owner world label)
  | .register _ | .registerActive _ =>
    inferInstanceAs (Decidable
      (world.cancellationRequested = true ∨ world.concluding = false))
  | .rollbackAck _ => inferInstanceAs (Decidable (world.concluding = false))
  | .unregisterActive coroutine =>
    inferInstanceAs (Decidable ((world.unregisterActive coroutine).hasWork = true ∨
      world.hasWork = false ∨ world.ripe = false ∨ world.promised owner = true))
  | .advance call _ =>
    inferInstanceAs (Decidable (forall thread : Thread,
      thread ∈ world.threads[call]? -> thread.Orderly owner world call))
  | .invoke _ _ | .lookup _ | .getTaskAuth _ _ | .evict | .removeWork _ _
  | .unregisterRunningTask _ | .recordFailure _ => isTrue trivial

/-!
# What is kept
-/

/-- The step is the one at which the record of a new task is stored. -/
def Creates (world : World) (label : Label) : Prop :=
  exists call now request asked record,
    label = .advance call now ∧
      world.threads[call]? = some (.writing (.create request) asked record)

/-- One step of a life: no status goes back, a terminal one comes up while the task has no
work, and only the creation of a task brings up a record. -/
structure Follows (world next : World) (label : Label) : Prop where
  seen : forall before after : TaskRecord, world.seen = some before ->
    next.seen = some after -> before.status.Precedes after.status
  stored : forall before after : TaskRecord, world.store = some before ->
    next.store = some after -> before.status.Precedes after.status
  seen_idle : forall before after : TaskRecord, world.seen = some before ->
    next.seen = some after -> before.status.terminal = false ->
    after.status.terminal = true -> next.hasWork = false
  stored_idle : forall before after : TaskRecord, world.store = some before ->
    next.store = some after -> before.status.terminal = false ->
    after.status.terminal = true -> next.hasWork = false
  appears : world.seen = none -> next.seen ≠ none ->
    Creates world label ∧ forall after : TaskRecord, next.seen = some after ->
      after.status = .pending
  stored_appears : world.store = none -> next.store ≠ none -> Creates world label

def Lives (owner : TaskOwner) (world : World) (label : Label) : Prop :=
  forall next, step owner world label = some next -> Follows world next label

/-- With no work left and nothing running, a recorded outcome has its terminal status. -/
def World.Settled (world : World) : Prop :=
  (forall thread, thread ∈ world.threads -> thread.isDone = true) ->
    world.hasWork = false -> forall record : TaskRecord,
      world.store = some record ∨ world.cache = some record ->
      record.status = .cancelling ∨ record.error.isSome = true ∨
        record.result.isSome = true ->
      record.status.terminal = true

/-- A tracker that starts up finds the record of an earlier process at most, and work for
it when its outcome is recorded. -/
structure World.Booted (world : World) : Prop where
  cache : world.cache = none
  lock : world.lock = none
  threads : world.threads = []
  work : world.ripe = true -> world.hasWork = true

/-!
# The invariant of the tracker

Only the call with the lock changes the stored record, so what that call has loaded is
what is stored.  The cache is empty, or up to date, or the call with the lock is about to
change it.  An outcome that waits for its terminal status has work or a finalization.
-/

namespace Thread

def holds : Thread -> Bool
  | .reading _ _ | .loaded _ _ _ | .writing _ _ _ | .written _ _ _ | .deleting _
  | .deleted _ => true
  | _ => false

/-- The store is changed and the cache is not. -/
def behind : Thread -> Bool
  | .written _ _ _ | .deleted _ => true
  | _ => false

theorem holds_of_behind {thread : Thread} (h : thread.behind = true) :
    thread.holds = true := by
  cases thread <;> first | rfl | cases h

end Thread

/-- The calls that promise to finalize the task from their start. -/
def Op.promises : Op -> Bool
  | .finalize _ | .recordOutcome _ _ _ => true
  | _ => false

/-- What a call writes in place of the stored record. -/
structure WriteFits (world : World) (op : Op) (record : TaskRecord) : Prop where
  precedes : forall stored : TaskRecord, world.store = some stored ->
    stored.status.Precedes record.status
  created : world.store = none ->
    (exists request, op = .create request) ∧ record.status = .pending
  idle : record.status.terminal = true -> world.hasWork = false
  ripe : record.ripe = true -> world.ripe = true ∧ op.promises = false ∨
    (exists result error resourceId, op = .recordOutcome result error resourceId) ∨
      op = .cancel

def Thread.Fits (world : World) : Thread -> Prop
  | .loaded op _ task =>
    (forall record, task = some record -> world.store = some record) ∧
      ((exists request, op = .create request) -> task = none -> world.store = none)
  | .writing op _ record => WriteFits world op record
  | .written _ _ record =>
    world.store = some record ∧
      (record.status.terminal = true -> world.hasWork = false)
  | .deleted _ => world.store = none
  | _ => True

theorem Thread.fits_of_free {world : World} {thread : Thread}
    (h : thread.holds = false) : thread.Fits world := by
  cases thread <;> first | contradiction | trivial

/-- Where a call stands fits the stored record and the work that is left. -/
theorem Thread.Fits.congr {world next : World} {thread : Thread}
    (h : thread.Fits world) (hstore : next.store = world.store)
    (hwork : next.hasWork = true -> thread.concludes = true -> world.hasWork = true) :
    thread.Fits next := by
  have hidle : forall record : TaskRecord,
      (record.status.terminal = true -> thread.concludes = true) ->
      (record.status.terminal = true -> world.hasWork = false) ->
      record.status.terminal = true -> next.hasWork = false := by
    intro record hconcludes hbefore hterminal
    cases hnext : next.hasWork with
    | false => rfl
    | true =>
      have hworld := hwork hnext (hconcludes hterminal)
      rw [hbefore hterminal] at hworld
      cases hworld
  cases thread with
  | loaded op asked task =>
    rw [Fits, hstore]
    exact h
  | writing op asked record =>
    constructor
    · rw [hstore]
      exact h.precedes
    · rw [hstore]
      exact h.created
    · exact hidle record (fun hterminal => hterminal) h.idle
    · rw [World.ripe, hstore]
      exact h.ripe
  | written op asked record =>
    rw [Fits, hstore]
    exact ⟨h.1, hidle record (fun hterminal => hterminal) h.2⟩
  | deleted op =>
    rw [Fits, hstore]
    exact h
  | _ => trivial

structure Sound (owner : TaskOwner) (world : World) : Prop where
  locked : forall {call : Nat} {thread : Thread}, world.threads[call]? = some thread ->
    thread.holds = true -> world.lock = some call
  fits : forall {call : Nat} {thread : Thread}, world.threads[call]? = some thread ->
    thread.Fits world
  fresh : world.cache = none ∨ world.cache = world.store ∨
    exists (call : Nat) (thread : Thread), world.threads[call]? = some thread ∧
      thread.behind = true
  ahead : forall {cached stored : TaskRecord}, world.cache = some cached ->
    world.store = some stored -> cached.status.Precedes stored.status
  promised : world.ripe = true -> world.hasWork = false -> world.promised owner = true

/-!
# Threads
-/

section Threads

variable {owner : TaskOwner} {world : World} {call : Nat} {old thread : Thread}

theorem getElem?_set_of_ne {threads : List Thread} {other : Nat} (h : other ≠ call) :
    (threads.set call thread)[other]? = threads[other]? :=
  getElem?_set_ne (Ne.symm h)

theorem eq_of_getElem?_set {threads : List Thread} {found : Thread}
    (h : (threads.set call thread)[call]? = some found) : found = thread := by
  have hlt : call < (threads.set call thread).length :=
    (List.getElem?_eq_some_iff.mp h).1
  rw [List.length_set] at hlt
  rw [List.getElem?_set_self hlt] at h
  exact (Option.some.inj h).symm

theorem promised_setThread (hcall : world.threads[call]? = some old)
    (h : thread.willFinalize owner = true) :
    (world.setThread call thread).promised owner = true := by
  have hlt : call < world.threads.length := (List.getElem?_eq_some_iff.mp hcall).1
  exact List.any_eq_true.mpr ⟨thread, List.mem_set hlt _, h⟩

theorem promised_setThread_of_promised (hcall : world.threads[call]? = some old)
    (hold : old.willFinalize owner = false) (h : world.promised owner = true) :
    (world.setThread call thread).promised owner = true := by
  rcases any_eq_true.mp h with ⟨other, hmem, hother⟩
  rcases getElem?_of_mem hmem with ⟨place, hplace⟩
  have hne : place ≠ call := by
    intro heq
    rw [heq, hcall] at hplace
    cases hplace
    rw [hold] at hother
    cases hother
  have hset : (world.threads.set call thread)[place]? = some other := by
    rw [getElem?_set_of_ne hne]
    exact hplace
  exact any_eq_true.mpr ⟨other, mem_of_getElem? hset, hother⟩

theorem promised_setThread_of_done
    (h : (world.setThread call (.done .nothing)).promised owner = true) :
    (world.setThread call thread).promised owner = true := by
  rcases any_eq_true.mp h with ⟨other, hmem, hother⟩
  rcases getElem?_of_mem hmem with ⟨place, hplace⟩
  have hne : place ≠ call := by
    intro heq
    rw [heq] at hplace
    rw [eq_of_getElem?_set hplace] at hother
    cases hother
  have hset : (world.threads.set call thread)[place]? = some other := by
    rw [getElem?_set_of_ne hne]
    rwa [World.setThread, getElem?_set_of_ne hne] at hplace
  exact any_eq_true.mpr ⟨other, mem_of_getElem? hset, hother⟩

theorem promised_spawn_of_promised (h : world.promised owner = true) :
    (world.spawn thread).promised owner = true := by
  rw [World.promised, World.spawn, any_append]
  exact Bool.or_eq_true_iff.mpr (.inl h)

theorem promised_spawn (h : thread.willFinalize owner = true) :
    (world.spawn thread).promised owner = true := by
  rw [World.promised, World.spawn, any_append]
  exact Bool.or_eq_true_iff.mpr (.inr (by rw [any_cons, h]; rfl))

theorem concludes_of_concluding (h : world.concluding = false)
    (hcall : world.threads[call]? = some thread) : thread.concludes = false :=
  Bool.eq_false_iff.mpr fun hconcludes =>
    absurd (any_eq_true.mpr ⟨thread, mem_of_getElem? hcall, hconcludes⟩)
      (Bool.eq_false_iff.mp h)

end Threads

namespace Sound

variable {owner : TaskOwner} {world : World}

/-!
# Steps without the lock
-/

section

variable (h : Sound owner world)

include h

/-- The threads that hold something stay, and no other comes to hold anything. -/
theorem sameHolders {threads : List Thread}
    (hkept : forall {call : Nat} {found : Thread}, found.holds = true ->
      (threads[call]? = some found <-> world.threads[call]? = some found))
    (hpromised : world.ripe = true -> world.hasWork = false ->
      World.promised owner { world with threads } = true) :
    Sound owner { world with threads } := by
  constructor
  · intro call found hfound hholds
    exact h.locked ((hkept hholds).mp hfound) hholds
  · intro call found hfound
    cases hholds : found.holds with
    | true =>
      exact (h.fits ((hkept hholds).mp hfound)).congr rfl (fun hnext _ => hnext)
    | false => exact Thread.fits_of_free hholds
  · rcases h.fresh with hnone | heq | ⟨call, found, hfound, hbehind⟩
    · exact .inl hnone
    · exact .inr (.inl heq)
    · exact .inr (.inr ⟨call, found,
        (hkept (Thread.holds_of_behind hbehind)).mpr hfound, hbehind⟩)
  · exact h.ahead
  · exact hpromised

theorem spawn {thread : Thread} (hfree : thread.holds = false) :
    Sound owner (world.spawn thread) := by
  apply h.sameHolders
  · intro call found hholds
    rw [getElem?_append]
    split
    · rfl
    · rename_i hlt
      rw [getElem?_eq_none (Nat.not_lt.mp hlt)]
      refine iff_of_false ?_ nofun
      intro hfound
      have hmem : found ∈ [thread] := mem_of_getElem? hfound
      rw [mem_singleton.mp hmem, hfree] at hholds
      cases hholds
  · intro hripe hidle
    exact promised_spawn_of_promised (h.promised hripe hidle)

theorem setFailure (failure : Option Str) :
    Sound owner (world.setFailure failure) := by
  exact ⟨h.locked, fun hcall => (h.fits hcall).congr rfl (fun hnext _ => hnext),
    h.fresh, h.ahead, h.promised⟩

theorem setCache {cache : Option TaskRecord}
    (hcache : cache = none ∨ cache = world.store) :
    Sound owner (world.setCache cache) := by
  refine ⟨h.locked, fun hcall => (h.fits hcall).congr rfl (fun hnext _ => hnext), ?_, ?_,
    h.promised⟩
  · rcases hcache with hnone | hstore
    · exact .inl hnone
    · exact .inr (.inl hstore)
  intro cached stored hcached hstored
  rcases hcache with hnone | hstore
  · rw [show (world.setCache cache).cache = cache from rfl, hnone] at hcached
    cases hcached
  · have heq : some cached = some stored := by
      rw [← hcached, ← hstored]
      exact hstore
    cases heq
    exact TaskStatus.Precedes.refl _

/-- A call without the lock goes on. -/
theorem setFree {call : Nat} {old thread : Thread}
    (hcall : world.threads[call]? = some old) (hold : old.holds = false)
    (hfree : thread.holds = false)
    (hpromised : world.ripe = true -> world.hasWork = false ->
      (world.setThread call thread).promised owner = true) :
    Sound owner (world.setThread call thread) := by
  apply h.sameHolders _ hpromised
  intro place found hholds
  cases Nat.decEq place call with
  | isFalse hne => rw [getElem?_set_of_ne hne]
  | isTrue heq =>
    rw [heq, hcall]
    apply iff_of_false
    · intro hfound
      rw [eq_of_getElem?_set hfound, hfree] at hholds
      cases hholds
    · intro hfound
      cases hfound
      rw [hholds] at hold
      cases hold

theorem setIndex {next : World} (hstore : next.store = world.store)
    (hcache : next.cache = world.cache) (hthreads : next.threads = world.threads)
    (hlock : next.lock = world.lock)
    (hwork : next.hasWork = true -> world.hasWork = true ∨ world.concluding = false)
    (hpromised : next.ripe = true -> next.hasWork = false ->
      next.promised owner = true) :
    Sound owner next := by
  constructor
  · intro call thread hcall hholds
    rw [hthreads] at hcall
    rw [hlock]
    exact h.locked hcall hholds
  · intro call thread hcall
    rw [hthreads] at hcall
    apply (h.fits hcall).congr hstore
    intro hnext hconcludes
    rcases hwork hnext with hworld | hnone
    · exact hworld
    · rw [concludes_of_concluding hnone hcall] at hconcludes
      cases hconcludes
  · rw [hcache, hstore, hthreads]
    exact h.fresh
  · rw [hcache, hstore]
    exact h.ahead
  · exact hpromised

theorem promised_setThread {call : Nat} {old thread : Thread}
    (hcall : world.threads[call]? = some old)
    (hkeeps : world.ripe = true -> world.hasWork = false ->
      old.willFinalize owner = true -> thread.willFinalize owner = true ∨
        (world.setThread call (.done .nothing)).promised owner = true)
    (hripe : world.ripe = true) (hidle : world.hasWork = false) :
    (world.setThread call thread).promised owner = true := by
  cases hold : old.willFinalize owner with
  | false => exact promised_setThread_of_promised hcall hold (h.promised hripe hidle)
  | true =>
    rcases hkeeps hripe hidle hold with hthread | hothers
    · exact Tracker.promised_setThread hcall hthread
    · exact promised_setThread_of_done hothers

end

end Sound

/-!
# Steps with the lock
-/

/-- The call has the lock and no other call does. -/
structure Held (world : World) (call : Nat) : Prop where
  lock : world.lock = some call
  others : forall {other : Nat} {thread : Thread}, other ≠ call ->
    world.threads[other]? = some thread -> thread.holds = false

namespace Sound

variable {owner : TaskOwner} {world : World} {call : Nat} {old : Thread}

theorem held (h : Sound owner world) (hcall : world.threads[call]? = some old)
    (hholds : old.holds = true) : Held world call := by
  have hlock := h.locked hcall hholds
  constructor
  · exact hlock
  · intro other thread hne hother
    cases hthread : thread.holds with
    | false => rfl
    | true =>
      have hsame := h.locked hother hthread
      rw [hlock] at hsame
      exact absurd (Option.some.inj hsame).symm hne

theorem held_of_unlocked (h : Sound owner world) (hlock : world.lock = none) :
    Held (world.setLock (some call)) call := by
  constructor
  · rfl
  · intro other thread hne hother
    cases hthread : thread.holds with
    | false => rfl
    | true =>
      have hsame := h.locked hother hthread
      rw [hlock] at hsame
      cases hsame

theorem fresh_of_held (h : Sound owner world) (hcall : world.threads[call]? = some old)
    (hholds : old.holds = true) (hbehind : old.behind = false) :
    world.cache = none ∨ world.cache = world.store := by
  rcases h.fresh with hnone | heq | ⟨other, thread, hother, hthread⟩
  · exact .inl hnone
  · exact .inr heq
  · have hlock := h.locked hcall hholds
    rw [h.locked hother (Thread.holds_of_behind hthread)] at hlock
    rw [Option.some.inj hlock, hcall] at hother
    cases hother
    rw [hbehind] at hthread
    cases hthread

theorem fresh_of_unlocked (h : Sound owner world) (hlock : world.lock = none) :
    world.cache = none ∨ world.cache = world.store := by
  rcases h.fresh with hnone | heq | ⟨other, thread, hother, hthread⟩
  · exact .inl hnone
  · exact .inr heq
  · rw [h.locked hother (Thread.holds_of_behind hthread)] at hlock
    cases hlock

end Sound

theorem precedes_of_fresh {cache store : Option TaskRecord} {cached stored : TaskRecord}
    (h : cache = none ∨ cache = store) (hcached : cache = some cached)
    (hstored : store = some stored) : cached.status.Precedes stored.status := by
  rcases h with hnone | heq
  · rw [hnone] at hcached
    cases hcached
  · rw [heq, hstored] at hcached
    cases hcached
    exact TaskStatus.Precedes.refl _

namespace Held

variable {owner : TaskOwner} {world next : World} {call : Nat}

theorem sound (h : Held world call) (thread : Thread)
    (hthreads : next.threads = world.threads.set call thread)
    (hlock : thread.holds = true -> next.lock = some call) (hfits : thread.Fits next)
    (hfresh : next.cache = none ∨ next.cache = next.store ∨
      next.threads[call]? = some thread ∧ thread.behind = true)
    (hahead : forall {cached stored : TaskRecord}, next.cache = some cached ->
      next.store = some stored -> cached.status.Precedes stored.status)
    (hpromised : next.ripe = true -> next.hasWork = false ->
      next.promised owner = true) :
    Sound owner next := by
  have hother : forall {other : Nat} {found : Thread},
      next.threads[other]? = some found -> found.holds = true ->
        other = call ∧ found = thread := by
    intro other found hfound hholds
    rw [hthreads] at hfound
    cases Nat.decEq other call with
    | isTrue heq =>
      rw [heq] at hfound
      exact ⟨heq, eq_of_getElem?_set hfound⟩
    | isFalse hne =>
      rw [getElem?_set_of_ne hne] at hfound
      rw [h.others hne hfound] at hholds
      cases hholds
  constructor
  · intro other found hfound hholds
    rcases hother hfound hholds with ⟨rfl, rfl⟩
    exact hlock hholds
  · intro other found hfound
    cases hholds : found.holds with
    | true =>
      rcases hother hfound hholds with ⟨rfl, rfl⟩
      exact hfits
    | false => exact Thread.fits_of_free hholds
  · rcases hfresh with hnone | heq | hbehind
    · exact .inl hnone
    · exact .inr (.inl heq)
    · exact .inr (.inr ⟨call, thread, hbehind⟩)
  · exact hahead
  · exact hpromised

end Held

end Tracker
end OpenViking
