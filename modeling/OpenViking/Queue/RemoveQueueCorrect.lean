import OpenViking.Queue.SQLiteQueue

/-!
# Removal is confined to the subtree

The Redis script removes the queues of the subtree and leaves every key of
every other queue alone.  The SQLite backend removes the same names exactly
when its pattern matches no stored name outside the subtree.
-/

namespace OpenViking
namespace Queue

open Paths Redis Like Assoc List Script Except

/-!
# The Redis script
-/

namespace RedisQueue

theorem inSubtreeTest_iff (name queue : Str) :
    inSubtreeTest name queue = true <-> InSubtree name queue := by
  rw [inSubtreeTest, InSubtree, Bool.or_eq_true, beq_iff_eq, beq_iff_eq,
    prefix_iff_eq_take, length_append, length_singleton]
  exact or_congr Iff.rfl eq_comm

namespace Key

def queue? : Key -> Option Str
  | metadata queue => some queue
  | pending queue => some queue
  | processing queue => some queue
  | message queue _ => some queue
  | _ => none

end Key

section Removal

variable {keyPrefix : Str} {ks ks' ks'' : Keyspace}

def registered (keyPrefix : Str) (ks : Keyspace) : List Str :=
  setAt ks (Key.names.render keyPrefix)

/-- Nothing of the queue is left. -/
def Gone (keyPrefix queue : Str) (ks ks' : Keyspace) : Prop :=
  queue ∉ registered keyPrefix ks' ∧
    valueAt keyPrefix ks' (.metadata queue) = none ∧
    pendingOf keyPrefix ks' queue = [] ∧
    (forall m, ¬ Holds keyPrefix ks' queue m) ∧
    forall id, Present keyPrefix ks queue id ->
      valueAt keyPrefix ks' (.message queue id) = none

def Untouched (keyPrefix queue : Str) (ks ks' : Keyspace) : Prop :=
  (queue ∈ registered keyPrefix ks' <-> queue ∈ registered keyPrefix ks) ∧
    forall k, Key.queue? k = some queue ->
      valueAt keyPrefix ks' k = valueAt keyPrefix ks k

theorem Untouched.refl (keyPrefix queue : Str) (ks : Keyspace) :
    Untouched keyPrefix queue ks ks :=
  ⟨Iff.rfl, fun _ _ => rfl⟩

variable {queue : Str}

section

variable (h : Untouched keyPrefix queue ks ks')

include h

theorem Untouched.trans (h' : Untouched keyPrefix queue ks' ks'') :
    Untouched keyPrefix queue ks ks'' :=
  ⟨h'.1.trans h.1, fun k hk => (h'.2 k hk).trans (h.2 k hk)⟩

theorem Untouched.pendingOf : RedisQueue.pendingOf keyPrefix ks' queue =
      RedisQueue.pendingOf keyPrefix ks queue :=
  listAt_congr (h.2 (.pending queue) rfl)

theorem Untouched.holds (m : Str) :
    Holds keyPrefix ks' queue m <-> Holds keyPrefix ks queue m := by
  rw [Holds, Holds, Scored, Scored, scoresAt_congr (h.2 (.processing queue) rfl)]

theorem Untouched.present (id : Uuid) :
    Present keyPrefix ks' queue id <-> Present keyPrefix ks queue id := by
  rw [Present, Present, h.pendingOf]
  simp only [h.holds]

end

/-- No payload is written. -/
def OnlyDeletes (keyPrefix : Str) (ks ks' : Keyspace) : Prop :=
  forall queue id, valueAt keyPrefix ks (.message queue id) = none ->
    valueAt keyPrefix ks' (.message queue id) = none

theorem Gone.untouched (h : Gone keyPrefix queue ks ks')
    (h' : Untouched keyPrefix queue ks' ks'') :
    Gone keyPrefix queue ks ks'' := by
  rcases h with ⟨hreg, hmeta, hpending, hholds, hpayload⟩
  refine ⟨fun hmem => hreg (h'.1.mp hmem), ?_, ?_, ?_, ?_⟩
  · rw [h'.2 _ rfl, hmeta]
  · rw [h'.pendingOf, hpending]
  · intro m hm
    exact hholds m ((h'.holds m).mp hm)
  · intro id hid
    rw [h'.2 _ rfl, hpayload id hid]

theorem Gone.again (h : Gone keyPrefix queue ks ks')
    (h' : Gone keyPrefix queue ks' ks'')
    (hdeletes : OnlyDeletes keyPrefix ks' ks'') :
    Gone keyPrefix queue ks ks'' := by
  rcases h with ⟨_, _, _, _, hpayload⟩
  rcases h' with ⟨hreg, hmeta, hpending, hholds, _⟩
  exact ⟨hreg, hmeta, hpending, hholds,
    fun id hid => hdeletes queue id (hpayload id hid)⟩

theorem Gone.of_untouched (h : Untouched keyPrefix queue ks ks')
    (h' : Gone keyPrefix queue ks' ks'') : Gone keyPrefix queue ks ks'' := by
  rcases h' with ⟨hreg, hmeta, hpending, hholds, hpayload⟩
  exact ⟨hreg, hmeta, hpending, hholds,
    fun id hid => hpayload id ((h.present id).mpr hid)⟩

private theorem del_rotate (ks : Keyspace) (a b c : Str) :
    del (del (del ks a) b) c =
      del (del (del ks b) c) a := by
  have hcomm : forall (ks : Keyspace) (x y : Str),
      del (del ks x) y = del (del ks y) x :=
    fun ks x y => AList.erase_erase x y ks
  rw [hcomm ks a b, hcomm (del ks b) a c]

private theorem removeKeys_of_clear {n : Nat}
    (h : clearCall keyPrefix queue ks = (ok n, ks')) :
    removeKeys (queueKeyPrefix keyPrefix) queue ks =
      (ok (),
        del ks' ((Key.metadata queue).render keyPrefix)) := by
  rw [clearCall, clearScript] at h
  rcases exists_of_bind_ok h with ⟨ids, ks₁, hrange, h⟩
  rcases exists_of_bind_ok h with ⟨_, ks₂, hdeleted, h⟩
  rcases exists_of_bind_ok h with ⟨members, ks₃, hzrange, h⟩
  rcases exists_of_bind_ok h with ⟨_, ks₄, hdeleted', h⟩
  rcases exists_of_bind_ok h with ⟨_, ks₅, hpending, h⟩
  rcases exists_of_bind_ok h with ⟨_, ks₆, hprocessing, h⟩
  cases hpending
  cases hprocessing
  cases h
  have hrun : removeKeys (queueKeyPrefix keyPrefix) queue ks =
      delKeys [(QueueKeys.new keyPrefix queue).metadata,
        (QueueKeys.new keyPrefix queue).pending,
        (QueueKeys.new keyPrefix queue).processing] ks₄ := by
    refine (bind_of_ok hrange).trans ?_
    refine (bind_of_ok hdeleted).trans ?_
    exact (bind_of_ok hzrange).trans (bind_of_ok hdeleted')
  rw [hrun, delKeys]
  exact congrArg (Prod.mk (ok ())) (del_rotate ks₄ _ _ _)

/-- The loop body empties one queue. -/
private theorem removeKeys_effect (h : Formed keyPrefix ks) (queue : Str) :
    exists mid ks' : Keyspace,
      removeKeys (queueKeyPrefix keyPrefix) queue ks = (.ok (), mid) ∧
      srem (Key.names.render keyPrefix) queue mid = (.ok (), ks') ∧
      Formed keyPrefix ks' ∧ OnlyDeletes keyPrefix ks ks' ∧
      Gone keyPrefix queue ks ks' ∧
      forall q, q ≠ queue -> Untouched keyPrefix q ks ks' := by
  rcases clear_effect h queue
    with ⟨n, ks₁, hclear, h₁, hpending, hholds, hpayload, hrest⟩
  have hframe : Frame keyPrefix [Key.metadata queue] ks₁
      (del ks₁ ((Key.metadata queue).render keyPrefix)) :=
    frame_of_onlyAt (onlyAt_del ks₁ _) mem_cons_self
  have h₂ := h₁.del (Key.metadata queue)
  rcases srem_spec (h₂.kinds Key.names) queue with ⟨ks', hrem, honly, hkind, hmem⟩
  have hframe' : Frame keyPrefix [Key.names] _ ks' :=
    frame_of_onlyAt honly mem_cons_self
  have hformed : Formed keyPrefix ks' := by
    apply h₂.of_onlyAt honly hkind
    · nofun
    · nofun
  have hnames : registered keyPrefix (del ks₁
      ((Key.metadata queue).render keyPrefix)) = registered keyPrefix ks := by
    have hfind : valueAt keyPrefix (del ks₁
        ((Key.metadata queue).render keyPrefix)) Key.names =
          valueAt keyPrefix ks Key.names := by
      rw [hframe _ (by simp), hrest Key.names (by simp) (by simp) (by simp)]
    rw [valueAt, valueAt] at hfind
    rw [registered, registered, setAt, setAt, hfind]
  have hkept : forall q, q ∈ registered keyPrefix ks' <->
      (q ≠ queue ∧ q ∈ registered keyPrefix ks) := by
    intro q
    rw [← hnames]
    exact hmem q
  refine ⟨_, ks', removeKeys_of_clear hclear, hrem, hformed, ?_, ?_, ?_⟩
  · intro q id hnone
    rw [hframe' _ (by simp), hframe _ (by simp)]
    by_cases hq : q = queue ∧ Present keyPrefix ks queue id
    · rw [hq.1, hpayload id hq.2]
    · rw [hrest _ (by simp) (by simp) ?_, hnone]
      intro id' hid' heq
      cases heq
      exact hq ⟨rfl, hid'⟩
  · refine ⟨fun hreg => ((hkept queue).mp hreg).1 rfl, ?_, ?_, ?_, ?_⟩
    · rw [hframe' _ (by simp), valueAt, find_del_self]
    · rw [hframe'.pendingOf (by simp), hframe.pendingOf (by simp), hpending]
    · intro m hm
      rw [hframe'.holds (by simp), hframe.holds (by simp)] at hm
      exact hholds m hm
    · intro id hid
      rw [hframe' _ (by simp), hframe _ (by simp), hpayload id hid]
  · intro q hq
    constructor
    · rw [hkept q]
      exact ⟨fun hin => hin.2, fun hin => ⟨hq, hin⟩⟩
    intro k hk
    have hne : forall k' : Key, Key.queue? k' = some queue -> k ≠ k' := by
      intro k' hk' heq
      rw [heq, hk'] at hk
      exact hq (Option.some.inj hk).symm
    have hnotNames : k ≠ Key.names := by
      intro heq
      rw [heq] at hk
      cases hk
    rw [hframe' k (by simpa using hnotNames),
      hframe k (by simpa using hne _ rfl),
      hrest k (hne _ rfl) (hne _ rfl) fun id _ => hne _ rfl]

/-- What the loop does with the names that are still to come. -/
private theorem removeQueues_effect (h : Formed keyPrefix ks) (name : Str)
    (queues : List Str) :
    exists ks' : Keyspace,
      removeQueues (Key.names.render keyPrefix) name
          (queueKeyPrefix keyPrefix) queues ks =
        (.ok (queues.countP (inSubtreeTest name)), ks') ∧
      Formed keyPrefix ks' ∧ OnlyDeletes keyPrefix ks ks' ∧
      forall q,
        (q ∈ queues -> InSubtree name q -> Gone keyPrefix q ks ks') ∧
        (¬ (q ∈ queues ∧ InSubtree name q) ->
          Untouched keyPrefix q ks ks') := by
  induction queues generalizing ks with
  | nil =>
    refine ⟨ks, rfl, h, fun _ _ hnone => hnone, ?_⟩
    intro q
    exact ⟨fun hq => absurd hq not_mem_nil,
      fun _ => Untouched.refl keyPrefix q ks⟩
  | cons queue rest ih =>
    cases htest : inSubtreeTest name queue with
    | false =>
      have hout : ¬ InSubtree name queue := by
        rw [← inSubtreeTest_iff, htest]
        exact Bool.false_ne_true
      rcases ih h with ⟨ks', hrun, hformed, hdeletes, hrest⟩
      refine ⟨ks', ?_, hformed, hdeletes, ?_⟩
      · rw [removeQueues, htest, countP_cons_of_neg (by simp [htest])]
        exact hrun
      intro q
      constructor
      · intro hq hin
        rcases mem_cons.mp hq with hq | hq
        · exact absurd (hq ▸ hin) hout
        · exact (hrest q).1 hq hin
      · intro hnot
        apply (hrest q).2
        intro hin
        exact hnot ⟨mem_cons_of_mem _ hin.1, hin.2⟩
    | true =>
      rcases removeKeys_effect h queue
        with ⟨mid, ks₁, hkeys, hrem, h₁, hdeletes, hgone, hother⟩
      rcases ih h₁ with ⟨ks', hrun, hformed, hdeletes', hrest⟩
      refine ⟨ks', ?_, hformed,
        fun q id hnone => hdeletes' q id (hdeletes q id hnone), ?_⟩
      · rw [removeQueues, htest, countP_cons_of_pos htest]
        refine (bind_of_ok hkeys).trans ?_
        exact (bind_of_ok hrem).trans (bind_of_ok hrun)
      intro q
      by_cases hq : q = queue
      · have hsame : Gone keyPrefix q ks ks' := by
          by_cases hagain : q ∈ rest ∧ InSubtree name q
          · exact (hq ▸ hgone).again ((hrest q).1 hagain.1 hagain.2) hdeletes'
          · exact (hq ▸ hgone).untouched ((hrest q).2 hagain)
        exact ⟨fun _ _ => hsame, fun hnot => absurd
          ⟨hq ▸ mem_cons_self,
            hq ▸ (inSubtreeTest_iff name queue).mp htest⟩ hnot⟩
      · constructor
        · intro hmem hin
          rcases mem_cons.mp hmem with heq | hmem
          · exact absurd heq hq
          · exact ((hrest q).1 hmem hin).of_untouched (hother q hq)
        · intro hnot
          apply (hother q hq).trans
          apply (hrest q).2
          intro hin
          exact hnot ⟨mem_cons_of_mem _ hin.1, hin.2⟩

/-- The registered queues of the subtree are removed with their messages, and
nothing of any other queue is. -/
def RemovesSubtree (keyPrefix name : Str) (ks ks' : Keyspace) : Prop :=
  forall q,
    (q ∈ registered keyPrefix ks -> InSubtree name q ->
      Gone keyPrefix q ks ks') ∧
    (¬ (q ∈ registered keyPrefix ks ∧ InSubtree name q) ->
      Untouched keyPrefix q ks ks')

theorem removeQueueScript_effect (h : Formed keyPrefix ks) (name : Str) :
    exists ks' : Keyspace,
      removeQueueScript (queueNamesKey keyPrefix) name
          (queueKeyPrefix keyPrefix) ks =
        (.ok ((registered keyPrefix ks).countP (inSubtreeTest name)),
          ks') ∧
      Formed keyPrefix ks' ∧ RemovesSubtree keyPrefix name ks ks' := by
  have hmembers : smembers (queueNamesKey keyPrefix) ks =
      (.ok (registered keyPrefix ks), ks) :=
    smembers_eq (h.kinds .names)
  rcases removeQueues_effect h name (registered keyPrefix ks)
    with ⟨ks', hrun, hformed, _, hqueues⟩
  exact ⟨ks', (bind_of_ok hmembers).trans hrun, hformed, hqueues⟩

theorem removeQueue_effect (h : Formed keyPrefix ks) (name : Str) :
    RemovesSubtree keyPrefix name ks (removeQueue keyPrefix name ks).2 ∧
      ((removeQueue keyPrefix name ks).1 = .ok () <->
        exists q, q ∈ registered keyPrefix ks ∧ InSubtree name q) := by
  rcases removeQueueScript_effect h name with ⟨ks', hrun, _, hremoves⟩
  have hcount : 0 < (registered keyPrefix ks).countP (inSubtreeTest name) <->
      exists q, q ∈ registered keyPrefix ks ∧ InSubtree name q := by
    simp only [countP_pos_iff, inSubtreeTest_iff]
  rw [← hcount, removeQueue, hrun]
  cases (registered keyPrefix ks).countP (inSubtreeTest name) with
  | zero => exact ⟨hremoves, by simp⟩
  | succ n => exact ⟨hremoves, by simp⟩

theorem RemovesSubtree.mem_registered {name : Str}
    (h : RemovesSubtree keyPrefix name ks ks') (q : Str) :
    q ∈ registered keyPrefix ks' <->
      (q ∈ registered keyPrefix ks ∧ ¬ InSubtree name q) := by
  by_cases hin : q ∈ registered keyPrefix ks ∧ InSubtree name q
  · have hgone := ((h q).1 hin.1 hin.2).1
    simp [hgone, hin.2]
  · rw [((h q).2 hin).1]
    constructor
    · intro hq
      exact ⟨hq, fun hsub => hin ⟨hq, hsub⟩⟩
    · intro hq
      exact hq.1

end Removal

end RedisQueue

/-!
# The SQLite backend
-/

namespace SQLite

variable (db : Database)

/-- The names in both tables. -/
def storedNames : List Str :=
  db.queueMetadata ++ db.queueMessages.map MessageRow.queueName

def withoutSubtree (name : Str) : Database :=
  { db with
    queueMetadata := db.queueMetadata.filter fun m => !decide (InSubtree name m)
    queueMessages := db.queueMessages.filter fun r =>
      !decide (InSubtree name r.queueName) }

/-- `remove_queue` and `list_queues` act on the subtree, as the Redis script
does on the same registered names. -/
structure Confined (db : Database) (name : Str) : Prop where
  remove : (removeQueue db name).2 = withoutSubtree db name
  found : (removeQueue db name).1 = .ok () <->
    exists m, m ∈ storedNames db ∧ InSubtree name m
  list : name ≠ [] -> listQueues db name =
    orderByName (db.queueMetadata.filter fun m => decide (InSubtree name m))
  redis : forall (keyPrefix : Str) (ks : Keyspace),
    RedisQueue.Formed keyPrefix ks ->
    (forall m, m ∈ RedisQueue.registered keyPrefix ks <->
      m ∈ db.queueMetadata) ->
    forall m, m ∈ RedisQueue.registered keyPrefix
        (RedisQueue.removeQueue keyPrefix name ks).2 <->
      m ∈ (removeQueue db name).2.queueMetadata

/-- No stored name outside the subtree has a part before a `/` that the name
matches when its `%` and `_` are wildcards and its letters have no case. -/
def NoLookalike (name : Str) : Prop :=
  forall m, m ∈ storedNames db -> forall a b, m = a ++ '/' :: b ->
    like name a = true -> InSubtree name m

theorem like_subtreePattern (name m : Str) :
    like (subtreePattern name) m = true <->
      exists a b, m = a ++ '/' :: b ∧ like name a = true := by
  have htail : forall b : Str, like ['/', '%'] b = true <->
      exists t, b = '/' :: t := by
    intro b
    rw [like_cons (by decide)]
    constructor
    · intro h
      rcases h with ⟨d, t, hb, hd, _⟩
      have hslash : d = '/' := by
        rcases hd with hd | hd
        · exact absurd hd (by decide)
        · exact (sameLetter_iff_eq (by decide) d).mp hd
      exact ⟨t, by rw [hb, hslash]⟩
    · intro h
      rcases h with ⟨t, hb⟩
      refine ⟨'/', t, hb, .inr rfl, ?_⟩
      exact (like_percent_cons _ _).mpr ⟨t, [], (append_nil t).symm, rfl⟩
  rw [subtreePattern, like_append]
  simp only [htail]
  constructor
  · intro h
    rcases h with ⟨a, b, hm, ha, t, hb⟩
    exact ⟨a, t, by rw [hm, hb], ha⟩
  · intro h
    rcases h with ⟨a, t, hm, ha⟩
    exact ⟨a, '/' :: t, hm, ha, t, rfl⟩

theorem subtreeTest_of_inSubtree {name m : Str} (h : InSubtree name m) :
    subtreeTest name m = true := by
  rw [subtreeTest, Bool.or_eq_true]
  rcases h with h | h
  · exact .inl (by simp [h])
  · rcases h with ⟨b, hb⟩
    refine .inr ((like_subtreePattern name m).mpr ⟨name, b, ?_, like_self _⟩)
    rw [← hb, append_assoc]
    rfl

theorem subtreeTest_exact_iff (name : Str) : (forall m, m ∈ storedNames db ->
      subtreeTest name m = decide (InSubtree name m)) <->
      NoLookalike db name := by
  constructor
  · intro h m hm a b hsplit hlike
    have htest : subtreeTest name m = true := by
      rw [subtreeTest, (like_subtreePattern name m).mpr ⟨a, b, hsplit, hlike⟩,
        Bool.or_true]
    rw [h m hm] at htest
    exact of_decide_eq_true htest
  · intro h m hm
    by_cases hin : InSubtree name m
    · rw [subtreeTest_of_inSubtree hin, decide_eq_true hin]
    · rw [decide_eq_false hin, subtreeTest, Bool.or_eq_false_iff]
      constructor
      · exact beq_eq_false_iff_ne.mpr fun heq => hin (Or.inl heq)
      · rw [Bool.eq_false_iff]
        intro hlike
        rcases (like_subtreePattern name m).mp hlike with ⟨a, b, hsplit, ha⟩
        exact hin (h m hm a b hsplit ha)

theorem removeQueue_snd (name : Str) : (removeQueue db name).2 =
      { db with
        queueMetadata := db.queueMetadata.filter fun m => !subtreeTest name m
        queueMessages := db.queueMessages.filter fun r =>
          !subtreeTest name r.queueName } := by
  rw [removeQueue]
  show (if _ then (error _, _) else (ok (), _)).2 = _
  split <;> rfl

theorem removeQueue_ok_iff (name : Str) : (removeQueue db name).1 = ok () <->
      exists m, m ∈ storedNames db ∧ subtreeTest name m = true := by
  have hrows : 0 < db.queueMessages.countP
      (fun r => subtreeTest name r.queueName) <->
      exists m, m ∈ db.queueMessages.map MessageRow.queueName ∧
        subtreeTest name m = true := by
    rw [countP_pos_iff]
    simp
  have hmeta : 0 < db.queueMetadata.countP (subtreeTest name) <->
      exists m, m ∈ db.queueMetadata ∧ subtreeTest name m = true :=
    countP_pos_iff
  have hall : (exists m, m ∈ storedNames db ∧ subtreeTest name m = true) <->
      (0 < db.queueMessages.countP (fun r => subtreeTest name r.queueName) ∨
        0 < db.queueMetadata.countP (subtreeTest name)) := by
    rw [hrows, hmeta, storedNames]
    simp only [mem_append, or_and_right, exists_or]
    exact or_comm
  rw [hall, removeQueue]
  change (if db.queueMessages.countP (fun r => subtreeTest name r.queueName) = 0
      ∧ db.queueMetadata.countP (subtreeTest name) = 0 then
    (error (queueNotFound name), _) else (ok (), _)).1 = _ <-> _
  split
  · rename_i hzero
    rw [hzero.1, hzero.2]
    simp
  · rename_i hzero
    constructor
    · intro _
      omega
    · intro _
      rfl

private theorem eq_of_filter_eq {α : Type} {xs : List α} {f g : α -> Bool}
    (h : xs.filter f = xs.filter g) {x : α} (hx : x ∈ xs) : f x = g x := by
  have hiff : x ∈ xs.filter f <-> x ∈ xs.filter g := by rw [h]
  rw [mem_filter, mem_filter] at hiff
  rw [Bool.eq_iff_iff]
  exact ⟨fun hf => (hiff.mp ⟨hx, hf⟩).2, fun hg => (hiff.mpr ⟨hx, hg⟩).2⟩

/-- Removing and listing are confined to the subtree exactly when no stored
name outside it looks like one below the name. -/
theorem queue_removal_confined_iff (db : Database) (name : Str) :
    Confined db name <-> NoLookalike db name := by
  rw [← subtreeTest_exact_iff]
  constructor
  · intro h m hm
    have hremove := h.remove
    rw [removeQueue_snd, withoutSubtree] at hremove
    injection hremove with hmeta hrows
    rcases List.mem_append.mp hm with hm | hm
    · simpa using eq_of_filter_eq hmeta hm
    · rcases List.mem_map.mp hm with ⟨r, hr, hname⟩
      rw [← hname]
      simpa using eq_of_filter_eq hrows hr
  · intro h
    have hmeta : forall m, m ∈ db.queueMetadata ->
        subtreeTest name m = decide (InSubtree name m) :=
      fun m hm => h m (List.mem_append_left _ hm)
    have hrows : forall r, r ∈ db.queueMessages ->
        subtreeTest name r.queueName = decide (InSubtree name r.queueName) :=
      fun r hr => h _ (List.mem_append_right _ (List.mem_map_of_mem hr))
    have hremove : (removeQueue db name).2 = withoutSubtree db name := by
      rw [removeQueue_snd, withoutSubtree,
        List.filter_congr fun m hm => congrArg not (hmeta m hm),
        List.filter_congr fun r hr => congrArg not (hrows r hr)]
    constructor
    · exact hremove
    · rw [removeQueue_ok_iff]
      constructor
      · intro hex
        rcases hex with ⟨m, hm, htest⟩
        rw [h m hm] at htest
        exact ⟨m, hm, of_decide_eq_true htest⟩
      · intro hex
        rcases hex with ⟨m, hm, hin⟩
        exact ⟨m, hm, subtreeTest_of_inSubtree hin⟩
    · intro hname
      rw [listQueues, if_neg hname, List.filter_congr hmeta]
    · intro keyPrefix ks hformed hsame m
      have hremoves := (RedisQueue.removeQueue_effect hformed name).1
      rw [hremoves.mem_registered, hsame, hremove, withoutSubtree]
      simp

/-- Two queues that `create_queue` made: `_` in the one matches `x` in the
other. -/
def lookalikeQueues : Database :=
  (createQueue (createQueue Database.empty "a_b".toList).2
    "axb/c".toList).2

theorem wildcard_name_removes_other_queue :
    ¬ Confined lookalikeQueues "a_b".toList := by
  intro h
  have hmeta := congrArg Database.queueMetadata h.remove
  revert hmeta
  decide +kernel

end SQLite
end Queue
end OpenViking
