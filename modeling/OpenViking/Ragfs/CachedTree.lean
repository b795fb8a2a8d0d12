import OpenViking.Common.StackLoop
import OpenViking.Ragfs.TreeLimits

/-!
# Traversal through the cache

The cached traversal keeps a stack of tasks instead of recursing, and visits
the entries of a directory in the order of its listing, which it does not sort.
-/

namespace OpenViking
namespace Ragfs

open Paths
open Segments
open Emitted
open StackLoop

/-- Listings in the cache were read from the backend. -/
structure ListingCache {ε : Type} (tree : Tree ε) where
  held : Str -> Option (List FileInfo)
  coherent : forall (path : Str) (entries : List FileInfo),
    held path = some entries -> tree.readDir path = .ok entries

/-- The cached `read_dir`: a listing that is missing comes from the backend. -/
def ListingCache.readDir {ε : Type} {tree : Tree ε} (cache : ListingCache tree)
    (path : Str) : Except ε (List FileInfo) :=
  match cache.held path with
  | some entries => .ok entries
  | none => tree.readDir path

theorem ListingCache.readDir_eq {ε : Type} {tree : Tree ε}
    (cache : ListingCache tree) (path : Str) :
    cache.readDir path = tree.readDir path := by
  rw [ListingCache.readDir]
  cases hheld : cache.held path with
  | none => rfl
  | some entries => exact (cache.coherent path entries hheld).symm

inductive TreeTask where
  | visitDir (path : Str)
  | emit (entry : TreeEntry)

section Loop

variable {ε : Type} {tree : Tree ε} (cache : ListingCache tree)
  (showHidden : Bool) (nodeLimit levelLimit : Option Nat) (base : Str)

/-- The entries are pushed in reverse, a directory below its own entry. -/
def pushTreeTasks (current : Str) (entries : List FileInfo) : List TreeTask :=
  entries.reverse.foldl
    (fun stack entry =>
      if !isShown showHidden entry then stack
      else
        let path := entryPath current entry.name
        let stack := if entry.isDir then .visitDir path :: stack else stack
        .emit (treeEntry base current entry) :: stack)
    []

/-- One turn of the loop. -/
def treeStep (task : TreeTask) (result : List TreeEntry) :
    Outcome ε TreeTask (List TreeEntry) :=
  if reached nodeLimit result.length then .stop result
  else
    match task with
    | .emit entry => .next [] (result ++ [entry])
    | .visitDir current =>
      if reached levelLimit
          (relativeDepth (relativeMatchFile base current)) then
        .next [] result
      else
        match cache.readDir current with
        | .error e => .fail e
        | .ok entries =>
          .next (pushTreeTasks showHidden base current entries) result

end Loop

/-- `tree_directory_via_cache` ends with the result. -/
def TreeDirectoryViaCache {ε : Type} {tree : Tree ε} (cache : ListingCache tree)
    (path : Str) (showHidden : Bool) (nodeLimit levelLimit : Option Nat)
    (out : Except ε (List TreeEntry)) : Prop :=
  let base := normalizePrefixPath path
  Runs (treeStep cache showHidden nodeLimit levelLimit base)
    [.visitDir base] [] out

/-!
# The loop performs the traversal
-/

section Performs

variable {ε : Type} {tree : Tree ε} {cache : ListingCache tree}
  {showHidden : Bool} {nodeLimit levelLimit : Option Nat} {base : Str}

/-- What an entry pushes. -/
def entryTasks (showHidden : Bool) (base current : Str) (entry : FileInfo) :
    List TreeTask :=
  if isShown showHidden entry then
    .emit (treeEntry base current entry) ::
      (if entry.isDir then [.visitDir (entryPath current entry.name)]
      else [])
  else []

theorem pushTreeTasks_eq (current : Str) (entries : List FileInfo) :
    pushTreeTasks showHidden base current entries =
      entries.flatMap (entryTasks showHidden base current) := by
  rw [pushTreeTasks, List.foldl_reverse]
  induction entries with
  | nil => rfl
  | cons entry rest ih =>
    rw [List.foldr_cons, ih, List.flatMap_cons, entryTasks]
    cases isShown showHidden entry with
    | false => rfl
    | true =>
      cases entry.isDir with
      | false => rfl
      | true => rfl

theorem treeStep_idle {result : List TreeEntry}
    (h : reached nodeLimit result.length = true) (task : TreeTask) :
    treeStep cache showHidden nodeLimit levelLimit base task result =
      .stop result := by
  rw [treeStep.eq_def, if_pos h]

theorem performs_collect {task : TreeTask} {x : Emitted ε TreeEntry}
    (h : forall (result : List TreeEntry) (ts : List TreeTask)
      (out : Except ε (List TreeEntry)),
      reached nodeLimit result.length = false ->
      After (treeStep cache showHidden nodeLimit levelLimit base) ts
        (collect nodeLimit result x) out ->
      Runs (treeStep cache showHidden nodeLimit levelLimit base) (task :: ts)
        result out) :
    Performs (treeStep cache showHidden nodeLimit levelLimit base) [task]
      fun result => collect nodeLimit result x := by
  apply performs_of_step
  intro result ts out hafter
  cases hroom : reached nodeLimit result.length with
  | false => exact h result ts out hroom hafter
  | true =>
    rw [collect_of_reached hroom] at hafter
    rw [(runs_iff_of_idle (treeStep_idle hroom)).mp hafter]
    exact Runs.stop (treeStep_idle hroom task)

theorem performs_emit (entry : TreeEntry) :
    Performs (treeStep cache showHidden nodeLimit levelLimit base)
      [.emit entry] fun result => collect nodeLimit result (one entry) := by
  apply performs_collect
  intro result ts out hroom hafter
  rw [collect_one hroom] at hafter
  have hstep : treeStep cache showHidden nodeLimit levelLimit base
      (.emit entry) result = .next [] (result ++ [entry]) := by
    rw [treeStep, hroom, if_neg Bool.false_ne_true]
  exact Runs.next hstep hafter

theorem performs_append {tasks tasks' : List TreeTask}
    {x y : Emitted ε TreeEntry}
    (hx : Performs (treeStep cache showHidden nodeLimit levelLimit base) tasks
      fun result => collect nodeLimit result x)
    (hy : Performs (treeStep cache showHidden nodeLimit levelLimit base) tasks'
      fun result => collect nodeLimit result y) :
    Performs (treeStep cache showHidden nodeLimit levelLimit base)
      (tasks ++ tasks') fun result => collect nodeLimit result (x.andThen y) := by
  have h := hx.append hy
  simp only [← collect_andThen] at h
  exact h

theorem performs_nothing :
    Performs (treeStep cache showHidden nodeLimit levelLimit base) []
      fun result => collect nodeLimit result nothing := by
  simp only [collect_nothing]
  exact performs_nil

theorem performs_entry {below : Str -> Emitted ε TreeEntry} (current : Str)
    (entry : FileInfo)
    (hbelow : entry.isDir = true ->
      Performs (treeStep cache showHidden nodeLimit levelLimit base)
        [.visitDir (entryPath current entry.name)]
        fun result => collect nodeLimit result
          (below (entryPath current entry.name))) :
    Performs (treeStep cache showHidden nodeLimit levelLimit base)
      (entryTasks showHidden base current entry)
      fun result => collect nodeLimit result
        (walkEntry showHidden base below current entry) := by
  rw [entryTasks, walkEntry]
  split
  · apply performs_append (performs_emit _)
    cases hdir : entry.isDir with
    | true => exact hbelow hdir
    | false => exact performs_nothing
  · exact performs_nothing

theorem performs_each {β : Type} {tasks : β -> List TreeTask}
    {f : β -> Emitted ε TreeEntry} {bs : List β}
    (h : forall b, b ∈ bs ->
      Performs (treeStep cache showHidden nodeLimit levelLimit base) (tasks b)
        fun result => collect nodeLimit result (f b)) :
    Performs (treeStep cache showHidden nodeLimit levelLimit base)
      (bs.flatMap tasks) fun result => collect nodeLimit result (each f bs) := by
  induction bs with
  | nil => exact performs_nothing
  | cons b rest ih =>
    exact performs_append (h b List.mem_cons_self)
      (ih fun b' hb => h b' (List.mem_cons_of_mem _ hb))

/-- Visiting a directory performs the walk in the order of the listings. -/
theorem performs_visitDir {fuel : Nat} {current : Str}
    (h : tree.height current < fuel) :
    Performs (treeStep cache showHidden nodeLimit levelLimit base)
      [.visitDir current]
      fun result => collect nodeLimit result
        (walk tree id showHidden levelLimit base fuel current) := by
  induction fuel generalizing current with
  | zero => exact absurd h (Nat.not_lt_zero _)
  | succ fuel ih =>
    apply performs_collect
    intro result ts out hroom hafter
    rw [walk] at hafter
    cases hlevel : reached levelLimit
        (relativeDepth (relativeMatchFile base current)) with
    | true =>
      have hstep : treeStep cache showHidden nodeLimit levelLimit base
          (.visitDir current) result = .next [] result := by
        rw [treeStep, hroom, if_neg Bool.false_ne_true, if_pos hlevel]
      rw [if_pos hlevel, collect_nothing] at hafter
      exact Runs.next hstep hafter
    | false =>
      rw [hlevel, if_neg Bool.false_ne_true] at hafter
      cases hread : tree.readDir current with
      | error e =>
        have hstep : treeStep cache showHidden nodeLimit levelLimit base
            (.visitDir current) result = .fail e := by
          rw [treeStep, hroom, if_neg Bool.false_ne_true, hlevel,
            if_neg Bool.false_ne_true, cache.readDir_eq, hread]
        rw [hread] at hafter
        change After _ ts (collect nodeLimit result (fail e)) out at hafter
        rw [collect_fail hroom] at hafter
        change out = .error e at hafter
        rw [hafter]
        exact Runs.fail hstep
      | ok entries =>
        have hstep : treeStep cache showHidden nodeLimit levelLimit base
            (.visitDir current) result = .next
                (entries.flatMap (entryTasks showHidden base current))
                result := by
          rw [treeStep, hroom, if_neg Bool.false_ne_true, hlevel,
            if_neg Bool.false_ne_true, cache.readDir_eq, hread]
          dsimp only
          rw [pushTreeTasks_eq]
        rw [hread] at hafter
        apply Runs.next hstep
        refine performs_each ?_ ts result out hafter
        intro entry hentry
        apply performs_entry
        intro hdir
        apply ih
        exact Nat.lt_of_lt_of_le
          (tree.descends current entries hread entry hentry hdir)
          (Nat.le_of_lt_succ h)

end Performs

/-!
# Entries in place

A mark says whether the listing of a directory has an entry where the sorted
listing has it, among the entries that are shown.
-/

section Marked

variable {ε : Type} (tree : Tree ε) (toLower : Str -> Str) (showHidden : Bool)
  (levelLimit : Option Nat) (base : Str)

def markedEntries (entries : List FileInfo) : List (FileInfo × Bool) :=
  List.zipWith (fun sorted listed => (sorted, decide (sorted = listed)))
    ((sortDirectoryEntries toLower entries).filter (isShown showHidden))
    (entries.filter (isShown showHidden))

def shownEntry (below : Str -> Emitted ε TreeEntry) (current : Str)
    (entry : FileInfo) : Emitted ε TreeEntry :=
  (one (treeEntry base current entry)).andThen
    (if entry.isDir then below (entryPath current entry.name) else nothing)

def markedEntry (below : Str -> Emitted ε (TreeEntry × Bool)) (current : Str)
    (p : FileInfo × Bool) : Emitted ε (TreeEntry × Bool) :=
  (one (treeEntry base current p.1, p.2)).andThen
    (if p.1.isDir then below (entryPath current p.1.name) else nothing)

/-- The sorted traversal with its marks. -/
def markedWalk : Nat -> Str -> Emitted ε (TreeEntry × Bool)
  | 0, _ => nothing
  | fuel + 1, current =>
    if reached levelLimit
        (relativeDepth (relativeMatchFile base current)) then nothing
    else
      match tree.readDir current with
      | .error e => fail e
      | .ok entries =>
        each (markedEntry base (markedWalk fuel) current)
          (markedEntries toLower showHidden entries)

variable {base showHidden}

theorem each_walkEntry (below : Str -> Emitted ε TreeEntry) (current : Str)
    (entries : List FileInfo) :
    each (walkEntry showHidden base below current) entries =
      each (shownEntry base below current)
        (entries.filter (isShown showHidden)) :=
  each_ite (isShown showHidden) (shownEntry base below current) entries

theorem length_shown_sorted (entries : List FileInfo) :
    ((sortDirectoryEntries toLower entries).filter (isShown showHidden)).length =
      (entries.filter (isShown showHidden)).length :=
  ((sortDirectoryEntries_perm toLower entries).filter _).length_eq

variable {below : Str -> Emitted ε (TreeEntry × Bool)}
  {below' : Str -> Emitted ε TreeEntry}

theorem map_markedEntry (hbelow : forall path, (below path).map Prod.fst = below' path)
    (current : Str) (p : FileInfo × Bool) :
    (markedEntry base below current p).map Prod.fst =
      shownEntry base below' current p.1 := by
  rw [markedEntry, shownEntry, map_andThen]
  cases p.1.isDir with
  | true =>
    rw [if_pos rfl, if_pos rfl, hbelow]
    rfl
  | false => rfl

theorem each_markedEntry
    (hbelow : forall path, (below path).map Prod.fst = below' path)
    (current : Str) {sorted listed : List FileInfo}
    (hlen : sorted.length = listed.length) :
    (each (markedEntry base below current)
      (List.zipWith (fun a b => (a, decide (a = b))) sorted listed)).map Prod.fst =
        each (shownEntry base below' current) sorted := by
  induction sorted generalizing listed with
  | nil => rfl
  | cons a sorted ih =>
    cases listed with
    | nil => cases hlen
    | cons b listed =>
      rw [List.zipWith_cons_cons, each, map_andThen,
        map_markedEntry hbelow, ih (Nat.succ.inj hlen)]
      rfl

theorem inStep_markedEntry (hbelow : forall path, InStep (below path) (below' path))
    (current : Str) {sorted listed : List FileInfo}
    (hlen : sorted.length = listed.length) :
    InStep
      (each (markedEntry base below current)
        (List.zipWith (fun a b => (a, decide (a = b))) sorted listed))
      (each (shownEntry base below' current) listed) := by
  induction sorted generalizing listed with
  | nil =>
    cases listed with
    | nil => exact inStep_nothing
    | cons b listed => cases hlen
  | cons a sorted ih =>
    cases listed with
    | nil => cases hlen
    | cons b listed =>
      rw [List.zipWith_cons_cons, each, each]
      by_cases heq : a = b
      · cases heq
        apply InStep.andThen _ (ih (Nat.succ.inj hlen))
        rw [decide_eq_true rfl, markedEntry, shownEntry]
        apply (inStep_one _).andThen
        cases a.isDir with
        | true => exact hbelow _
        | false => exact inStep_nothing
      · rw [decide_eq_false heq, markedEntry, shownEntry, andThen_assoc,
          andThen_assoc]
        exact inStep_differ (fun h => heq (congrArg TreeEntry.info h)) _ _

variable (base showHidden)

theorem map_markedWalk (fuel : Nat) (current : Str) :
    (markedWalk tree toLower showHidden levelLimit base fuel current).map
        Prod.fst =
      walk tree (sortDirectoryEntries toLower) showHidden levelLimit base fuel
        current := by
  induction fuel generalizing current with
  | zero => rfl
  | succ fuel ih =>
    rw [markedWalk, walk]
    split
    · rfl
    · cases tree.readDir current with
      | error e => rfl
      | ok entries =>
        dsimp only
        rw [each_walkEntry]
        exact each_markedEntry ih current (length_shown_sorted toLower entries)

theorem inStep_markedWalk (fuel : Nat) (current : Str) :
    InStep (markedWalk tree toLower showHidden levelLimit base fuel current)
      (walk tree id showHidden levelLimit base fuel current) := by
  induction fuel generalizing current with
  | zero => exact inStep_nothing
  | succ fuel ih =>
    rw [markedWalk, walk]
    split
    · exact inStep_nothing
    · cases tree.readDir current with
      | error e => exact inStep_fail e
      | ok entries =>
        dsimp only
        rw [each_walkEntry]
        exact inStep_markedEntry ih current (length_shown_sorted toLower entries)

end Marked

/-!
# Agreement with the default traversal
-/

section Agrees

variable {ε : Type} {tree : Tree ε} (cache : ListingCache tree)
  (toLower : Str -> Str) (path : Str) (showHidden : Bool)
  (nodeLimit levelLimit : Option Nat)

/-- What a traversal in the order of the listings meets. -/
def listedWalk (tree : Tree ε) : Emitted ε TreeEntry :=
  let base := normalizePrefixPath path
  walk tree id showHidden levelLimit base (tree.height base + 1) base

def markedTreeWalk (tree : Tree ε) : Emitted ε (TreeEntry × Bool) :=
  let base := normalizePrefixPath path
  markedWalk tree toLower showHidden levelLimit base (tree.height base + 1) base

theorem treeDirectoryViaCache_iff {out : Except ε (List TreeEntry)} :
    TreeDirectoryViaCache cache path showHidden nodeLimit levelLimit out <->
      collect nodeLimit [] (listedWalk path showHidden levelLimit tree) = out := by
  have hruns : TreeDirectoryViaCache cache path showHidden nodeLimit levelLimit
      (collect nodeLimit [] (listedWalk path showHidden levelLimit tree)) :=
    (performs_visitDir (Nat.lt_succ_self _)).runs []
  constructor
  · intro h
    exact hruns.unique h
  · intro h
    exact h ▸ hruns

theorem treeDirectory_agrees_iff :
    (forall xs : List TreeEntry,
      treeDirectory tree toLower path showHidden nodeLimit levelLimit =
          .ok xs <->
        TreeDirectoryViaCache cache path showHidden nodeLimit levelLimit
          (.ok xs)) <->
      InPlace nodeLimit (markedTreeWalk toLower path showHidden levelLimit tree) ∨
        (Blocked nodeLimit (treeWalk tree toLower path showHidden levelLimit) ∧
          Blocked nodeLimit (listedWalk path showHidden levelLimit tree)) := by
  have hstep := inStep_markedWalk tree toLower showHidden levelLimit
    (normalizePrefixPath path) (tree.height (normalizePrefixPath path) + 1)
    (normalizePrefixPath path)
  have hiff := hstep.collect_iff nodeLimit
  rw [map_markedWalk] at hiff
  simp only [treeDirectory_eq_collect, treeDirectoryViaCache_iff]
  exact hiff

end Agrees
end Ragfs
end OpenViking
