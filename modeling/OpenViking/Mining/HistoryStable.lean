import OpenViking.Mining.History

/-!
# The history does not depend on the order of polls

The jobs of the server are the same for every order of the tasks.  They are one
for each target and window, and have distinct ids, just when the ids and the
grouping keys tell the targets and windows apart.  Merging keeps every job up to
the newest thousand, and merging again changes nothing.
-/

namespace OpenViking
namespace Mining

open Text OrderedMap List

/-! ## Targets and windows -/

/-- The target of a task and the window of its source. -/
def CompileTaskHistoryItem.place (task : CompileTaskHistoryItem) :
    Text × Option Text :=
  (task.target, windowMatch task.source)

def keyAt (place : Text × Option Text) : Text :=
  match place.2 with
  | some digits => place.1 ++ "#window-".toList ++ digits
  | none => place.1

def jobIdAt (place : Text × Option Text) : Text :=
  place.2.elim (jobIdForTarget place.1) fun digits =>
    jobIdForTarget place.1 ++ "-w".toList ++ digits

theorem groupingKey_eq (task : CompileTaskHistoryItem) :
    task.groupingKey = keyAt task.place :=
  rfl

/-! ## The groups -/

/-- The tasks of one grouping key. -/
def groupAt (tasks : List CompileTaskHistoryItem) (key : Text) :
    List CompileTaskHistoryItem :=
  tasks.filter fun task => task.groupingKey = key

variable {tasks : List CompileTaskHistoryItem}

theorem Group.join_key (l s : Group) (_ : l.1 = s.1) : (l.join s).1 = l.1 :=
  rfl

theorem nodup_grouped : ((grouped tasks).map Prod.fst).Nodup :=
  nodup_updateAll (m := []) Group.join_key nodup_nil

theorem mem_keys_grouped {key : Text} :
    key ∈ (grouped tasks).map Prod.fst <->
      exists task, task ∈ tasks ∧ task.groupingKey = key := by
  rw [grouped, mem_keys_updateAll (m := []) Group.join_key nodup_nil]
  simp

theorem eq_groupAt_of_mem {group : Group}
    (hgroup : group ∈ grouped tasks) : group.2 = groupAt tasks group.1 := by
  induction tasks using reverseRecOn generalizing group with
  | nil => cases hgroup
  | append_singleton tasks task ih =>
    have hkeys := @mem_keys_grouped tasks task.groupingKey
    rw [grouped, map_append, map_singleton, updateAll_concat] at hgroup
    rcases mem_update nodup_grouped hgroup
      with ⟨hgroup, hne⟩ | ⟨l, hl, heq, rfl⟩ | ⟨hnew, rfl⟩
    · rw [ih hgroup]
      simp [groupAt, Ne.symm hne]
    · have hrest := ih hl
      rw [groupAt] at hrest
      simp [Group.join, groupAt, hrest, heq]
    · have hnone : groupAt tasks task.groupingKey = [] := by
        rw [groupAt, filter_eq_nil_iff]
        exact fun t ht heq => hnew (hkeys.mpr ⟨t, ht, of_decide_eq_true heq⟩)
      rw [groupAt] at hnone
      simp [groupAt, hnone]

section Collated

variable {order : Type} [LinearOrder order] {collate : Text -> order}
  {number : Type} [Zero number]

section Jobs

variable [One number] {toNumber : Text -> number}

theorem jobsFromCompileTasks_eq :
    jobsFromCompileTasks collate toNumber tasks =
      ((grouped (accepted tasks)).map Prod.fst).filterMap fun key =>
        jobOfGroup toNumber
          ((groupAt (accepted tasks) key).insertionSort (Older collate)) := by
  rw [filterMap_map]
  apply filterMap_congr
  intro group hgroup
  exact congrArg (fun g => jobOfGroup toNumber (g.insertionSort (Older collate)))
    (eq_groupAt_of_mem hgroup)

theorem jobs_perm {tasks' : List CompileTaskHistoryItem}
    (hcreated : (tasks.map fun task => collate task.createdAt).Nodup)
    (hperm : tasks'.Perm tasks) :
    (jobsFromCompileTasks collate toNumber tasks').Perm
      (jobsFromCompileTasks collate toNumber tasks) := by
  have haccepted : (accepted tasks').Perm (accepted tasks) := hperm.filter _
  have hsort : forall key,
      (groupAt (accepted tasks') key).insertionSort (Older collate) =
        (groupAt (accepted tasks) key).insertionSort (Older collate) := by
    intro key
    have hgroup := haccepted.filter fun task => decide (task.groupingKey = key)
    have hsorted := ((perm_insertionSort (Older collate) _).trans
      hgroup).trans (perm_insertionSort (Older collate) _).symm
    apply hsorted.eq_of_pairwise _ (pairwise_insertionSort _ _)
      (pairwise_insertionSort _ _)
    intro a b ha hb hab hba
    have hmem : forall t, t ∈ groupAt (accepted tasks) key -> t ∈ tasks :=
      fun t ht => mem_of_mem_filter (mem_of_mem_filter ht)
    exact inj_on_of_nodup_map hcreated
      (hmem a (hgroup.mem_iff.mp ((mem_insertionSort _).mp ha)))
      (hmem b ((mem_insertionSort _).mp hb)) (le_antisymm hab hba)
  rw [jobsFromCompileTasks_eq, jobsFromCompileTasks_eq]
  simp only [hsort]
  apply List.Perm.filterMap
  rw [perm_ext_iff_of_nodup nodup_grouped nodup_grouped]
  intro key
  simp only [mem_keys_grouped, haccepted.mem_iff]

/-! ## What a job shows -/

/-- The result of the latest task that has one. -/
def LatestResult (collate : Text -> order) (group : List CompileTaskHistoryItem)
    (result : Option CompileResult) : Prop :=
  (result = none ∧ forall task, task ∈ group -> task.result = none) ∨
    exists source, source ∈ group ∧ source.result ≠ none ∧
      result = source.result ∧
      forall task, task ∈ group -> task.result ≠ none -> Older collate task source

structure Shows (collate : Text -> order) (group : List CompileTaskHistoryItem)
    (job : MiningJob number) : Prop where
  latest : exists latest, latest ∈ group ∧
    (forall task, task ∈ group -> Older collate task latest) ∧
    job.targetUri = latest.target ∧ job.phase = latest.phase ∧
    job.taskId = some latest.taskId ∧ job.error = latest.errorText
  result : LatestResult collate group job.result

theorem latestResult_reverse {group : List CompileTaskHistoryItem}
    (hsorted : group.Pairwise (Older collate)) :
    LatestResult collate group
      (group.reverse.findSome? fun task => task.result) := by
  induction group using reverseRecOn with
  | nil => exact .inl ⟨rfl, fun _ h => absurd h not_mem_nil⟩
  | append_singleton group latest ih =>
    rcases pairwise_append.mp hsorted with ⟨hgroup, _, holder⟩
    have hlatest : forall task, task ∈ group -> Older collate task latest :=
      fun task htask => holder task htask latest mem_cons_self
    rw [reverse_append, reverse_singleton, singleton_append,
      findSome?_cons]
    cases hresult : latest.result with
    | some result =>
      refine .inr ⟨latest, by simp, by simp [hresult], hresult.symm, ?_⟩
      intro task htask _
      rcases mem_append.mp htask with htask | htask
      · exact hlatest task htask
      · rw [mem_singleton.mp htask]
        exact le_rfl
    | none =>
      rcases ih hgroup with ⟨hnone, hall⟩ | ⟨source, hsource, hsome, heq, hmax⟩
      · refine .inl ⟨hnone, fun task htask => ?_⟩
        rcases mem_append.mp htask with htask | htask
        · exact hall task htask
        · rw [mem_singleton.mp htask, hresult]
      · refine .inr ⟨source, mem_append_left _ hsource, hsome, heq, ?_⟩
        intro task htask hne
        rcases mem_append.mp htask with htask | htask
        · exact hmax task htask hne
        · rw [mem_singleton.mp htask] at hne
          exact absurd hresult hne

variable (collate toNumber)

theorem exists_jobOfGroup {group : List CompileTaskHistoryItem}
    (hne : group ≠ []) :
    exists job,
      jobOfGroup toNumber (group.insertionSort (Older collate)) = some job ∧
      Shows collate group job ∧
      exists first latest, first ∈ group ∧ latest ∈ group ∧
        job.id = jobIdAt (latest.target, windowMatch first.source) := by
  have hmem : forall task, task ∈ group.insertionSort (Older collate) <->
      task ∈ group := fun task => mem_insertionSort _
  have hsorted := pairwise_insertionSort (Older collate) group
  have hnil : group.insertionSort (Older collate) ≠ [] := fun h =>
    hne ((h ▸ (perm_insertionSort (Older collate) group).symm).eq_nil)
  generalize group.insertionSort (Older collate) = sorted at hmem hsorted hnil ⊢
  rcases eq_nil_or_concat' sorted with hnil' | ⟨earlier, latest, rfl⟩
  · exact absurd hnil' hnil
  have hresult : forall first, (jobOf toNumber (earlier ++ [latest]) first latest).result =
      (earlier ++ [latest]).reverse.findSome? fun task => task.result := by
    intro first
    rw [reverse_append, reverse_singleton, singleton_append,
      findSome?_cons, jobOf]
    cases hlatest : latest.result <;> simp [hlatest]
  rcases hfirst : (earlier ++ [latest]).head? with _ | first
  · exact absurd (head?_eq_none_iff.mp hfirst) hnil
  have hlast : latest ∈ group := (hmem latest).mp (by simp)
  refine ⟨jobOf toNumber (earlier ++ [latest]) first latest, ?_, ⟨?_, ?_⟩,
    first, latest, (hmem first).mp (mem_of_head? hfirst), hlast, rfl⟩
  · rw [jobOfGroup, hfirst, getLast?_concat]
  · refine ⟨latest, hlast, ?_, rfl, rfl, rfl, rfl⟩
    intro task htask
    rcases mem_append.mp ((hmem task).mpr htask) with htask | htask
    · exact (pairwise_append.mp hsorted).2.2 task htask latest mem_cons_self
    · rw [mem_singleton.mp htask]
      exact le_rfl
  · rw [hresult first]
    simpa only [LatestResult, hmem] using latestResult_reverse hsorted

theorem forall₂_filterMap {key job : Type} {keys : List key}
    {f : key -> Option job} {shown : key -> job -> Prop}
    (h : forall key, key ∈ keys -> exists job, f key = some job ∧ shown key job) :
    List.Forall₂ shown keys (keys.filterMap f) := by
  induction keys with
  | nil => exact List.Forall₂.nil
  | cons key rest ih =>
    rcases h key mem_cons_self with ⟨job, hjob, hshown⟩
    rw [filterMap_cons_some hjob]
    exact List.Forall₂.cons hshown (ih fun k hk => h k (mem_cons_of_mem key hk))

/-- The tasks of one target and window. -/
def placedAt (tasks : List CompileTaskHistoryItem)
    (place : Text × Option Text) : List CompileTaskHistoryItem :=
  tasks.filter fun task => task.place = place

/-- The jobs are the same for every order of the tasks, have distinct ids, and
are one for each target and window of an accepted task. -/
structure JobsStable (collate : Text -> order) (toNumber : Text -> number)
    (tasks : List CompileTaskHistoryItem) : Prop where
  order : forall tasks', tasks'.Perm tasks ->
    (jobsFromCompileTasks collate toNumber tasks').Perm
      (jobsFromCompileTasks collate toNumber tasks)
  ids : ((jobsFromCompileTasks collate toNumber tasks).map MiningJob.id).Nodup
  onePerPlace : exists places : List (Text × Option Text), places.Nodup ∧
    (forall place, place ∈ places <->
      exists task, task ∈ accepted tasks ∧ task.place = place) ∧
    List.Forall₂
      (fun place => Shows collate (placedAt (accepted tasks) place)) places
      (jobsFromCompileTasks collate toNumber tasks)

/-- The grouping keys tell the targets and windows apart. -/
def KeysApart (tasks : List CompileTaskHistoryItem) : Prop :=
  forall t, t ∈ accepted tasks -> forall u, u ∈ accepted tasks ->
    keyAt t.place = keyAt u.place -> t.place = u.place

/-- Neither the grouping keys nor the job ids of two targets and windows
coincide. -/
structure PlacesApart (tasks : List CompileTaskHistoryItem) : Prop where
  keys : KeysApart tasks
  ids : forall t, t ∈ accepted tasks -> forall u, u ∈ accepted tasks ->
    jobIdAt t.place = jobIdAt u.place -> t.place = u.place

theorem groupAt_eq (h : KeysApart tasks) {task : CompileTaskHistoryItem}
    (htask : task ∈ accepted tasks) :
    groupAt (accepted tasks) task.groupingKey =
      placedAt (accepted tasks) task.place := by
  apply filter_congr
  intro t ht
  rw [decide_eq_decide, groupingKey_eq, groupingKey_eq]
  exact ⟨h t ht task htask, congrArg keyAt⟩

/-- The job of each target and window, when the keys tell them apart. -/
theorem exists_places (h : KeysApart tasks) :
    exists places : List (Text × Option Text), places.Nodup ∧
      (forall place, place ∈ places <->
        exists task, task ∈ accepted tasks ∧ task.place = place) ∧
      List.Forall₂ (fun place job =>
          Shows collate (placedAt (accepted tasks) place) job ∧
            jobIdAt place = job.id) places
        (jobsFromCompileTasks collate toNumber tasks) := by
  have hkey : forall key, key ∈ (grouped (accepted tasks)).map Prod.fst ->
      exists place, keyAt place = key ∧
        exists task, task ∈ accepted tasks ∧ task.place = place := by
    intro key hkey
    rcases mem_keys_grouped.mp hkey with ⟨task, htask, rfl⟩
    exact ⟨task.place, rfl, task, htask, rfl⟩
  choose! place hplace htask using hkey
  refine ⟨((grouped (accepted tasks)).map Prod.fst).map place, ?_, ?_, ?_⟩
  · refine nodup_grouped.map_on fun key hkey key' hkey' heq => ?_
    rw [← hplace key hkey, heq, hplace key' hkey']
  · intro p
    rw [mem_map]
    constructor
    · rintro ⟨key, hkey, rfl⟩
      exact htask key hkey
    · rintro ⟨task, hmem, rfl⟩
      have hkey := mem_keys_grouped.mpr ⟨task, hmem, groupingKey_eq task⟩
      rcases htask _ hkey with ⟨t, ht, heq⟩
      refine ⟨_, hkey, ?_⟩
      rw [← heq]
      exact h t ht task hmem (heq ▸ hplace _ hkey)
  · rw [forall₂_map_left_iff, jobsFromCompileTasks_eq]
    apply forall₂_filterMap
    intro key hkey
    rcases htask key hkey with ⟨task, htask, heq⟩
    have hgroup := groupAt_eq h htask
    rw [groupingKey_eq, heq, hplace key hkey] at hgroup
    have hmem : task ∈ placedAt (accepted tasks) (place key) :=
      mem_filter.mpr ⟨htask, decide_eq_true heq⟩
    rw [hgroup]
    rcases exists_jobOfGroup collate toNumber (ne_nil_of_mem hmem)
      with ⟨job, hjob, hshows, first, latest, hfirst, hlatest, hid⟩
    refine ⟨job, hjob, hshows, ?_⟩
    have hfirst := of_decide_eq_true (mem_filter.mp hfirst).2
    have hlatest := of_decide_eq_true (mem_filter.mp hlatest).2
    have hplaced : (latest.target, windowMatch first.source) = place key :=
      Prod.ext (congrArg Prod.fst hlatest :) (congrArg Prod.snd hfirst :)
    rw [hid, hplaced]

omit [Zero number] [One number] in
theorem ids_eq {places : List (Text × Option Text)}
    {jobs : List (MiningJob number)} {shown : Text × Option Text ->
      MiningJob number -> Prop}
    (h : List.Forall₂ (fun place job => shown place job ∧
      jobIdAt place = job.id) places jobs) :
    jobs.map MiningJob.id = places.map jobIdAt := by
  rw [eq_comm, ← forall₂_eq_eq_eq, forall₂_map_left_iff, forall₂_map_right_iff]
  exact h.imp fun _ _ h => h.2

theorem keysApart_of_jobsStable (h : JobsStable collate toNumber tasks) :
    KeysApart tasks := by
  rcases h.onePerPlace with ⟨places, _, hplaces, hshown⟩
  have hkeys : (grouped (accepted tasks)).map Prod.fst ⊆ places.map keyAt := by
    intro key hkey
    rcases mem_keys_grouped.mp hkey with ⟨task, htask, rfl⟩
    exact mem_map_of_mem ((hplaces _).mpr ⟨task, htask, rfl⟩)
  have hlength : (places.map keyAt).length ≤
      ((grouped (accepted tasks)).map Prod.fst).length := by
    rw [length_map, hshown.length_eq, jobsFromCompileTasks_eq]
    exact length_filterMap_le _ _
  have hnodup := ((subperm_of_subset nodup_grouped hkeys).perm_of_length_le
    hlength).nodup_iff.mp nodup_grouped
  intro t ht u hu heq
  exact inj_on_of_nodup_map hnodup ((hplaces _).mpr ⟨t, ht, rfl⟩)
    ((hplaces _).mpr ⟨u, hu, rfl⟩) heq

theorem jobsStable_iff
    (hcreated : (tasks.map fun task => collate task.createdAt).Nodup) :
    JobsStable collate toNumber tasks <-> PlacesApart tasks := by
  constructor
  · intro h
    have hkeys := keysApart_of_jobsStable collate toNumber h
    refine ⟨hkeys, fun t ht u hu heq => ?_⟩
    rcases exists_places collate toNumber hkeys
      with ⟨places, _, hplaces, hshown⟩
    exact inj_on_of_nodup_map (ids_eq hshown ▸ h.ids)
      ((hplaces _).mpr ⟨t, ht, rfl⟩) ((hplaces _).mpr ⟨u, hu, rfl⟩) heq
  · intro h
    rcases exists_places collate toNumber h.keys
      with ⟨places, hnodup, hplaces, hshown⟩
    refine ⟨fun _ hperm => jobs_perm hcreated hperm, ?_, places, hnodup,
      hplaces, hshown.imp fun _ _ h => h.1⟩
    rw [ids_eq hshown]
    refine hnodup.map_on fun p hp q hq heq => ?_
    rcases (hplaces p).mp hp with ⟨t, ht, rfl⟩
    rcases (hplaces q).mp hq with ⟨u, hu, rfl⟩
    exact h.ids t ht u hu heq

end Jobs

/-! ## Merging -/

section Either

variable {value : Type} [DecidableEq value] (missing : List value)

@[simp] theorem either_self (a : value) : either missing a a = a :=
  ite_self a

theorem either_assoc (a b c : value) :
    either missing (either missing a b) c =
      either missing a (either missing b c) := by
  by_cases h : a ∈ missing <;> simp [either, h]

end Either

variable [DecidableEq number]

instance : Std.Associative (@mergeJob number _ _) :=
  ⟨fun _ _ _ => by simp only [mergeJob, either_assoc]⟩

instance : Std.IdempotentOp (@mergeJob number _ _) :=
  ⟨fun _ => by simp only [mergeJob, either_self]⟩

theorem mergeJob_id (l s : MiningJob number) (h : l.id = s.id) :
    (mergeJob l s).id = l.id :=
  h.symm

variable {localJobs serverJobs : List (MiningJob number)}

/-- The last job of an id. -/
def lastOf (jobs : List (MiningJob number)) (id : Text) : Option (MiningJob number) :=
  (jobs.filter fun job => job.id = id).getLast?

theorem merged_eq (hlocal : (localJobs.map MiningJob.id).Nodup) :
    merged localJobs serverJobs =
      updateAll MiningJob.id mergeJob localJobs serverJobs := by
  rw [merged, updateAll_nil hlocal]

theorem merged_eq_nil (hlocal : (localJobs.map MiningJob.id).Nodup) :
    merged localJobs serverJobs =
      updateAll MiningJob.id mergeJob [] (localJobs ++ serverJobs) := by
  rw [merged_eq hlocal, updateAll, updateAll, foldl_append]
  exact congrArg (updateAll MiningJob.id mergeJob · serverJobs)
    (updateAll_nil hlocal).symm

theorem insertionSort_append {item : Type} {le : item -> item -> Prop}
    [DecidableRel le] {xs ys : List item} (hxs : xs.Pairwise le)
    (hle : forall x, x ∈ xs -> forall y, y ∈ ys -> le x y) :
    (xs ++ ys).insertionSort le = xs ++ ys.insertionSort le := by
  induction xs with
  | nil => rfl
  | cons x rest ih =>
    rw [pairwise_cons] at hxs
    rw [cons_append, insertionSort_cons,
      ih hxs.2 fun x hx => hle x (mem_cons_of_mem _ hx), cons_append]
    cases hzs : rest ++ ys.insertionSort le with
    | nil => rfl
    | cons z zs =>
      apply orderedInsert_cons_of_le
      have hz : z ∈ rest ++ ys.insertionSort le := hzs ▸ mem_cons_self
      rw [mem_append, mem_insertionSort] at hz
      rcases hz with hz | hz
      · exact hxs.1 z hz
      · exact hle x mem_cons_self z hz

/-- Merging keeps the jobs of both sides up to the newest thousand, and the
details of an upload; what the server says holds, and merging again changes
nothing. -/
structure MergeStable (collate : Text -> order)
    (localJobs serverJobs : List (MiningJob number)) : Prop where
  nodup : ((mergeMiningJobs collate localJobs serverJobs).map MiningJob.id).Nodup
  contains : forall id job, lastOf (localJobs ++ serverJobs) id = some job ->
    id ∈ (mergeMiningJobs collate localJobs serverJobs).map MiningJob.id ∨
      (mergeMiningJobs collate localJobs serverJobs).length = 1000 ∧
        forall kept, kept ∈ mergeMiningJobs collate localJobs serverJobs ->
          Newer collate kept job
  upload : forall job, job ∈ mergeMiningJobs collate localJobs serverJobs ->
    forall localJob, localJob ∈ localJobs -> localJob.id = job.id ->
      job.documentFiles = localJob.documentFiles
  server : forall job, job ∈ mergeMiningJobs collate localJobs serverJobs ->
    forall server, lastOf serverJobs job.id = some server ->
      job.phase = server.phase ∧ job.taskId = server.taskId ∧
        job.error = server.error
  again : mergeMiningJobs collate
      (mergeMiningJobs collate localJobs serverJobs) serverJobs =
    mergeMiningJobs collate localJobs serverJobs

theorem mem_merged_of_mem {job : MiningJob number}
    (hjob : job ∈ mergeMiningJobs collate localJobs serverJobs) :
    job ∈ merged localJobs serverJobs :=
  (mem_insertionSort _).mp (mem_of_mem_take hjob)

/-- What is left out is not newer than what is kept. -/
theorem newer_of_notMem {job kept : MiningJob number}
    (hjob : job ∈ merged localJobs serverJobs)
    (hkept : kept ∈ mergeMiningJobs collate localJobs serverJobs)
    (hout : job ∉ mergeMiningJobs collate localJobs serverJobs) :
    Newer collate kept job := by
  have hsorted := pairwise_insertionSort (Newer collate)
    (merged localJobs serverJobs)
  rw [← take_append_drop 1000 (insertionSort _ _),
    pairwise_append] at hsorted
  apply hsorted.2.2 kept hkept
  rw [← mem_insertionSort (Newer collate),
    ← take_append_drop 1000 (insertionSort _ _), mem_append] at hjob
  exact hjob.resolve_left hout

theorem length_of_notMem {job : MiningJob number}
    (hjob : job ∈ merged localJobs serverJobs)
    (hout : job ∉ mergeMiningJobs collate localJobs serverJobs) :
    (mergeMiningJobs collate localJobs serverJobs).length = 1000 := by
  by_contra hlength
  apply hout
  rw [mergeMiningJobs, length_take] at hlength
  rw [mergeMiningJobs, take_of_length_le (by omega)]
  exact (mem_insertionSort _).mpr hjob

section Merged

variable (hlocal : (localJobs.map MiningJob.id).Nodup)

include hlocal

theorem nodup_merged : ((merged localJobs serverJobs).map MiningJob.id).Nodup := by
  rw [merged_eq hlocal]
  exact nodup_updateAll mergeJob_id hlocal

theorem nodup_mergeMiningJobs :
    ((mergeMiningJobs collate localJobs serverJobs).map MiningJob.id).Nodup :=
  (((perm_insertionSort _ _).map _).nodup_iff.mpr
    (nodup_merged hlocal)).sublist ((take_sublist _ _).map _)

theorem createdAt_of_mem_merged {job last : MiningJob number}
    (hjob : job ∈ merged localJobs serverJobs)
    (hlast : lastOf (localJobs ++ serverJobs) job.id = some last) :
    job.createdAt = last.createdAt := by
  rw [merged_eq_nil hlocal] at hjob
  exact updateAll_last (m := []) mergeJob_id MiningJob.createdAt
    (fun _ _ => rfl) nodup_nil hjob hlast

theorem mem_ids_merged {id : Text} :
    id ∈ (merged localJobs serverJobs).map MiningJob.id <->
      id ∈ localJobs.map MiningJob.id ∨ id ∈ serverJobs.map MiningJob.id := by
  rw [merged_eq hlocal]
  exact mem_keys_updateAll mergeJob_id hlocal

theorem exists_merged {s : MiningJob number} (hs : s ∈ serverJobs) :
    exists job, job ∈ merged localJobs serverJobs ∧ job.id = s.id :=
  mem_map.mp ((mem_ids_merged hlocal).mpr (Or.inr (mem_map_of_mem hs)))

/-- A job of the server that is merged in anew is not newer than a full list. -/
theorem newer_of_fresh {kept job : MiningJob number}
    (hkept : kept ∈ mergeMiningJobs collate localJobs serverJobs)
    (hjob : job ∈ updateAll MiningJob.id mergeJob [] (fresh MiningJob.id
      (mergeMiningJobs collate localJobs serverJobs) serverJobs)) :
    Newer collate kept job := by
  rcases mem_map.mp (((mem_keys_updateAll (m := []) mergeJob_id
    nodup_nil).mp (mem_map_of_mem hjob)).resolve_left nofun)
    with ⟨s, hs, hid⟩
  rcases mem_fresh.mp hs with ⟨hs, hout⟩
  rcases exists_merged hlocal hs with ⟨j, hj, hjid⟩
  have hnewer : collate j.createdAt ≤ collate kept.createdAt :=
    newer_of_notMem hj hkept fun hmem => hout (hjid ▸ mem_map_of_mem hmem)
  rw [hid] at hjid hout
  cases hlast : lastOf serverJobs job.id with
  | none =>
    have hnone := filter_eq_nil_iff.mp (getLast?_eq_none_iff.mp hlast)
    exact absurd (decide_eq_true hid) (hnone s hs)
  | some last =>
    have hfirst := updateAll_last (m := []) mergeJob_id MiningJob.createdAt
      (fun _ _ => rfl) nodup_nil hjob
      ((congrArg _ (filter_fresh hout)).trans hlast)
    rw [← hjid] at hlast
    rw [merged_eq hlocal] at hj
    have hsecond := updateAll_last mergeJob_id MiningJob.createdAt
      (fun _ _ => rfl) hlocal hj hlast
    rw [hsecond, ← hfirst] at hnewer
    exact hnewer

theorem mergeMiningJobs_again :
    mergeMiningJobs collate
        (mergeMiningJobs collate localJobs serverJobs) serverJobs =
      mergeMiningJobs collate localJobs serverJobs := by
  have hnodup : ((mergeMiningJobs collate localJobs serverJobs).map
      MiningJob.id).Nodup := nodup_mergeMiningJobs hlocal
  have hsorted : (mergeMiningJobs collate localJobs serverJobs).Pairwise
      (Newer collate) :=
    (pairwise_insertionSort _ _).sublist (take_sublist _ _)
  have habsorb : (mergeMiningJobs collate localJobs serverJobs).map
      (absorb MiningJob.id mergeJob serverJobs) =
        mergeMiningJobs collate localJobs serverJobs := by
    refine (map_congr_left fun job hjob => ?_).trans (map_id _)
    exact absorb_of_mem mergeJob_id hlocal
      (merged_eq hlocal ▸ mem_merged_of_mem hjob)
  have hagain := @updateAll_append _ _ _ _ _ _ serverJobs mergeJob_id []
    (by simpa using hnodup)
  rw [append_nil, habsorb] at hagain
  rw [mergeMiningJobs, merged_eq hnodup, hagain, insertionSort_append hsorted
    fun x hx y hy => newer_of_fresh hlocal hx hy]
  by_cases hlength : (mergeMiningJobs collate localJobs serverJobs).length = 1000
  · rw [take_left' hlength]
  · have hnone : fresh MiningJob.id
        (mergeMiningJobs collate localJobs serverJobs) serverJobs = [] := by
      rw [eq_nil_iff_forall_not_mem]
      intro s hs
      rcases exists_merged hlocal (mem_fresh.mp hs).1 with ⟨j, hj, hjid⟩
      apply hlength
      apply length_of_notMem hj
      intro hmem
      exact (mem_fresh.mp hs).2 (hjid ▸ mem_map_of_mem hmem)
    rw [hnone]
    exact (congrArg _ (append_nil _)).trans
      (take_of_length_le (length_take_le _ _))

end Merged

theorem mergeStable (hlocal : (localJobs.map MiningJob.id).Nodup) :
    MergeStable collate localJobs serverJobs where
  nodup := nodup_mergeMiningJobs hlocal
  contains id job hjob := by
    have hmem := mem_filter.mp (mem_of_getLast? hjob)
    have hid : id ∈ (merged localJobs serverJobs).map MiningJob.id := by
      rw [mem_ids_merged hlocal, ← mem_append, ← map_append]
      exact of_decide_eq_true hmem.2 ▸ mem_map_of_mem hmem.1
    rcases mem_map.mp hid with ⟨j, hj, rfl⟩
    by_cases hout : j ∈ mergeMiningJobs collate localJobs serverJobs
    · exact .inl (mem_map_of_mem hout)
    · refine .inr ⟨length_of_notMem hj hout, fun kept hkept => ?_⟩
      have hnewer : collate j.createdAt ≤ collate kept.createdAt :=
        newer_of_notMem hj hkept hout
      rw [createdAt_of_mem_merged hlocal hj hjob] at hnewer
      exact hnewer
  upload job hjob localJob hmem hid := by
    have hjob := mem_merged_of_mem hjob
    rw [merged_eq hlocal] at hjob
    exact updateAll_first mergeJob_id MiningJob.documentFiles (fun _ _ => rfl)
      hlocal hjob hmem hid
  server job hjob server hlast := by
    have hjob := mem_merged_of_mem hjob
    rw [merged_eq hlocal] at hjob
    have hfield := updateAll_last mergeJob_id (fun job =>
      (job.phase, job.taskId, job.error)) (fun _ _ => rfl) hlocal hjob hlast
    simpa using hfield
  again := mergeMiningJobs_again hlocal

theorem mining_history_stable_iff [One number] {toNumber : Text -> number}
    (hcreated : (tasks.map fun task => collate task.createdAt).Nodup)
    (hlocal : (localJobs.map MiningJob.id).Nodup) :
    JobsStable collate toNumber tasks ∧
        MergeStable collate localJobs serverJobs <->
      PlacesApart tasks := by
  rw [← jobsStable_iff collate toNumber hcreated]
  exact and_iff_left (mergeStable hlocal)

end Collated

/-- Times of one length compare as their codes. -/
def code (text : Text) : Nat :=
  text.foldl (fun n c => 128 * n + c.toNat) 0

/-- The number of few digits. -/
def digitsNumber (digits : Text) : Nat :=
  digits.foldl (fun n c => 10 * n + (c.toNat - '0'.toNat)) 0

def taskTo (target source createdAt : String) (status : CompileStatus)
    (result : Option CompileResult) : CompileTaskHistoryItem :=
  { createdAt := createdAt.toList
    error := none
    result := result
    stage := "agent".toList
    status := status
    taskId := createdAt.toList
    updatedAt := createdAt.toList
    sources := [source.toList]
    okfConfig := none
    reason := []
    skill := "llm-wiki".toList
    target := target.toList }

def page : CompileResult :=
  ⟨true, "page".toList⟩

/-- A window that is tried again, another window, and a target elsewhere. -/
def windowTasks : List CompileTaskHistoryItem :=
  let target := "viking://resources/knowledge-mining/run/wiki"
  [taskTo target "viking://s/windows/0002/document-sources" "10:03" .running none,
    taskTo target "viking://s/windows/0001/document-sources" "10:02" .failed none,
    taskTo "viking://resources/wiki" "viking://s" "10:04" .cancelled none,
    taskTo target "viking://s/windows/0001/document-sources" "10:01" .completed
      (some page)]

/-- The upload of the first window, and a job that the server does not have. -/
def windowUploads : List (MiningJob Nat) :=
  ["run-w0001", "old"].map fun id =>
    { jobOf digitsNumber [] (taskTo "" "" "09:00" .running none)
        (taskTo "" "" "09:00" .running none) with
      id := id.toList
      documentFiles := [⟨"guide.pdf".toList, 100, .completed⟩] }

theorem mining_history_stable_iff_windows :
    JobsStable code digitsNumber windowTasks ∧
      MergeStable code windowUploads
        (jobsFromCompileTasks code digitsNumber windowTasks) ∧
      (mergeMiningJobs code windowUploads
          (jobsFromCompileTasks code digitsNumber windowTasks)).map
        (fun job => (String.ofList job.id, job.phase, job.result,
          job.documentFiles.length)) =
        [("cli:viking://resources/wiki", .cancelled, none, 0),
          ("run-w0002", .compilingDocuments, none, 0),
          ("run-w0001", .failed, some page, 1),
          ("old", .compilingDocuments, none, 1)] := by
  rw [← and_assoc]
  constructor
  · apply (mining_history_stable_iff (by decide +kernel) (by decide +kernel)).mpr
    constructor
    · unfold KeysApart
      decide +kernel
    · decide +kernel
  · decide +kernel

/-- Two runs of one name under different folders. -/
def namesakeTasks : List CompileTaskHistoryItem :=
  [taskTo "viking://resources/knowledge-mining/x/run/wiki" "viking://x" "10:01"
      .completed (some page),
    taskTo "viking://resources/knowledge-mining/y/run/wiki" "viking://y" "10:02"
      .failed none]

theorem namesakes_not_stable :
    (namesakeTasks.map fun task => task.taskId).Nodup ∧
      (namesakeTasks.map fun task => code task.createdAt).Nodup ∧
      ¬ JobsStable code digitsNumber namesakeTasks ∧
      (mergeMiningJobs code []
        (jobsFromCompileTasks code digitsNumber namesakeTasks)).length = 1 := by
  refine ⟨by decide +kernel, by decide +kernel, fun h => ?_, by decide +kernel⟩
  have hids : ((jobsFromCompileTasks code digitsNumber namesakeTasks).map
      MiningJob.id).Nodup := h.ids
  exact absurd hids (by decide +kernel)

end Mining
end OpenViking
