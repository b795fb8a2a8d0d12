import OpenViking.Queue.RedisKeys

/-!
# What the Redis scripts do

A well-formed keyspace holds under each of the six kinds of keys a value that
fits it.  From a well-formed keyspace every script runs to its end or to the
error reply it sends itself, and the lemmas below say what it changes: the
values of the keys it names, and of no others.
-/

namespace OpenViking
namespace Queue

open Paths Redis Assoc List Script

namespace RedisQueue

namespace Key

def kind : Key -> Kind
  | names => .set
  | metadata _ => .hash
  | pending _ => .list
  | processing _ => .zset
  | message _ _ => .string
  | alive _ => .string

end Key

/-!
# Well-formed keyspaces
-/

section Views

variable (keyPrefix : Str) (ks : Keyspace)

def valueAt (k : Key) : Option RedisValue :=
  ks.find (k.render keyPrefix)

def pendingOf (queue : Str) : List Str :=
  listAt ks ((Key.pending queue).render keyPrefix)

/-- An instance holds a message of a queue. -/
def Holds (queue : Str) (member : Str) : Prop :=
  Scored ks ((Key.processing queue).render keyPrefix) member

structure Formed : Prop where
  kinds : forall k, KindAt ks (Key.render keyPrefix k) k.kind
  pending : forall queue e, e ∈ pendingOf keyPrefix ks queue ->
    exists id : Uuid, e = id.text
  members : forall queue m, Holds keyPrefix ks queue m ->
    exists id inst : Uuid, m = processingMember id.text inst.text

end Views

/-- Only the values of the given keys differ. -/
def Frame (keyPrefix : Str) (keys : List Key) (ks ks' : Keyspace) : Prop :=
  forall k, k ∉ keys -> valueAt keyPrefix ks' k = valueAt keyPrefix ks k

section Frames

variable {keyPrefix : Str} {keys : List Key} {ks ks' ks'' : Keyspace}

theorem Frame.refl (keyPrefix : Str) (keys : List Key) (ks : Keyspace) :
    Frame keyPrefix keys ks ks :=
  fun _ _ => rfl

theorem Frame.trans (h : Frame keyPrefix keys ks ks')
    (h' : Frame keyPrefix keys ks' ks'') : Frame keyPrefix keys ks ks'' :=
  fun k hk => (h' k hk).trans (h k hk)

theorem frame_of_onlyAt {k : Key} (h : OnlyAt (k.render keyPrefix) ks ks')
    (hk : k ∈ keys) : Frame keyPrefix keys ks ks' := by
  intro k' hk'
  apply h
  intro heq
  rw [(Key.render_inj keyPrefix).mp heq] at hk'
  exact hk' hk

theorem Frame.pendingOf (h : Frame keyPrefix keys ks ks') {queue : Str}
    (hk : Key.pending queue ∉ keys) :
    pendingOf keyPrefix ks' queue = pendingOf keyPrefix ks queue :=
  listAt_congr (h _ hk)

theorem Frame.holds (h : Frame keyPrefix keys ks ks') {queue : Str}
    (hk : Key.processing queue ∉ keys) (m : Str) :
    Holds keyPrefix ks' queue m <-> Holds keyPrefix ks queue m := by
  rw [Holds, Holds, Scored, Scored, scoresAt_congr (h _ hk)]

theorem Frame.kindAt (h : Frame keyPrefix keys ks ks') {k : Key}
    (hk : k ∉ keys) (hkind : KindAt ks (k.render keyPrefix) k.kind) :
    KindAt ks' (k.render keyPrefix) k.kind := by
  intro v hv
  have hvalue := h k hk
  rw [valueAt, valueAt] at hvalue
  rw [hvalue] at hv
  exact hkind v hv

theorem Formed.of_onlyAt (h : Formed keyPrefix ks) {k : Key}
    (honly : OnlyAt (k.render keyPrefix) ks ks')
    (hkind : KindAt ks' (k.render keyPrefix) k.kind)
    (hpending : forall queue, k = Key.pending queue ->
      forall e, e ∈ RedisQueue.pendingOf keyPrefix ks' queue ->
        exists id : Uuid, e = id.text)
    (hmembers : forall queue, k = Key.processing queue ->
      forall m, Holds keyPrefix ks' queue m ->
        exists id inst : Uuid, m = processingMember id.text inst.text) :
    Formed keyPrefix ks' := by
  have hframe : Frame keyPrefix [k] ks ks' :=
    frame_of_onlyAt honly mem_cons_self
  constructor
  · intro k'
    by_cases hk : k' = k
    · rw [hk]
      exact hkind
    · exact hframe.kindAt (by simpa using hk) (h.kinds k')
  · intro queue
    by_cases hk : k = Key.pending queue
    · exact hpending queue hk
    · rw [hframe.pendingOf (by simpa using Ne.symm hk)]
      exact h.pending queue
  · intro queue m
    by_cases hk : k = Key.processing queue
    · exact hmembers queue hk m
    · rw [hframe.holds (by simpa using Ne.symm hk)]
      exact h.members queue m

end Frames

/-!
# Commands on the keys of a queue
-/

section Commands

variable {keyPrefix : Str} {ks : Keyspace}

theorem Formed.put_string (h : Formed keyPrefix ks) {k : Key}
    (hk : k.kind = Kind.string) (s : Str) :
    Formed keyPrefix (ks.put (k.render keyPrefix) (RedisValue.string s)) := by
  apply h.of_onlyAt (onlyAt_put ks _ _) (kindAt_put (by rw [hk]; rfl))
  · intro queue heq
    rw [heq] at hk
    cases hk
  · intro queue heq
    rw [heq] at hk
    cases hk

theorem Formed.del (h : Formed keyPrefix ks) (k : Key) :
    Formed keyPrefix (del ks (k.render keyPrefix)) := by
  have hnone := find_del_self ks (k.render keyPrefix)
  apply h.of_onlyAt (onlyAt_del ks _) (kindAt_of_find_none hnone)
  · intro queue heq e he
    rw [heq] at he hnone
    rw [pendingOf, listAt, hnone] at he
    cases he
  · intro queue heq m hm
    rw [heq] at hm hnone
    rw [Holds, Scored, scoresAt, hnone] at hm
    rcases hm with ⟨score, hscore⟩
    rw [find_empty] at hscore
    cases hscore

theorem pendingOf_del (queue : Str) :
    pendingOf keyPrefix
      (del ks ((Key.pending queue).render keyPrefix)) queue = [] := by
  rw [pendingOf, listAt, find_del_self]

theorem not_holds_del (queue m : Str) :
    ¬ Holds keyPrefix
      (del ks ((Key.processing queue).render keyPrefix)) queue m := by
  rw [Holds, Scored, scoresAt, find_del_self]
  intro hm
  rcases hm with ⟨score, hscore⟩
  rw [find_empty] at hscore
  cases hscore

section

variable (h : Formed keyPrefix ks)

include h

theorem Formed.putList (queue : Str) {elements : List Str}
    (hids : forall e, e ∈ elements -> exists id : Uuid, e = id.text) :
    Formed keyPrefix
        (putList ks ((Key.pending queue).render keyPrefix) elements) ∧
      Frame keyPrefix [Key.pending queue] ks
        (putList ks ((Key.pending queue).render keyPrefix) elements) ∧
      pendingOf keyPrefix
        (putList ks ((Key.pending queue).render keyPrefix) elements) queue =
          elements := by
  have honly := onlyAt_putList ks ((Key.pending queue).render keyPrefix) elements
  refine ⟨?_, frame_of_onlyAt honly mem_cons_self, listAt_putList ks _ _⟩
  apply h.of_onlyAt honly (kindAt_putList ks _ _)
  · intro queue' heq e he
    cases heq
    rw [pendingOf, listAt_putList] at he
    exact hids e he
  · nofun

theorem rpush_pending (queue : Str) (id : Uuid) :
    exists ks', rpush ((Key.pending queue).render keyPrefix) id.text ks =
        (.ok (), ks') ∧ Formed keyPrefix ks' ∧
      Frame keyPrefix [Key.pending queue] ks ks' ∧
      pendingOf keyPrefix ks' queue =
        pendingOf keyPrefix ks queue ++ [id.text] := by
  refine ⟨_, rpush_eq (h.kinds (Key.pending queue)) id.text, ?_⟩
  apply h.putList queue
  intro e he
  rcases mem_append.mp he with he | he
  · exact h.pending queue e he
  · exact ⟨id, mem_singleton.mp he⟩

theorem lpush_pending (queue : Str) (id : Uuid) :
    exists ks', lpush ((Key.pending queue).render keyPrefix) id.text ks =
        (.ok (), ks') ∧ Formed keyPrefix ks' ∧
      Frame keyPrefix [Key.pending queue] ks ks' ∧
      pendingOf keyPrefix ks' queue =
        id.text :: pendingOf keyPrefix ks queue := by
  refine ⟨_, lpush_eq (h.kinds (Key.pending queue)) id.text, ?_⟩
  apply h.putList queue
  intro e he
  rcases mem_cons.mp he with he | he
  · exact ⟨id, he⟩
  · exact h.pending queue e he

theorem lpop_pending (queue : Str) : (pendingOf keyPrefix ks queue = [] ∧
      lpop ((Key.pending queue).render keyPrefix) ks =
        (.ok none, ks)) ∨
    exists (id : Uuid) (ks' : Keyspace),
      lpop ((Key.pending queue).render keyPrefix) ks =
        (.ok (some id.text), ks') ∧ Formed keyPrefix ks' ∧
      Frame keyPrefix [Key.pending queue] ks ks' ∧
      pendingOf keyPrefix ks queue =
        id.text :: pendingOf keyPrefix ks' queue := by
  have hpop := lpop_eq (h.kinds (Key.pending queue))
  have hids := h.pending queue
  rw [pendingOf] at hids ⊢
  cases hlist : listAt ks ((Key.pending queue).render keyPrefix) with
  | nil =>
    rw [hlist] at hpop
    exact .inl ⟨rfl, hpop⟩
  | cons e rest =>
    rw [hlist] at hpop hids
    rcases hids e mem_cons_self with ⟨id, hid⟩
    subst hid
    rcases h.putList queue (fun e' he' => hids e' (mem_cons_of_mem _ he'))
      with ⟨hformed, hframe, hpending⟩
    refine .inr ⟨id, _, hpop, hformed, hframe, ?_⟩
    rw [hpending]

theorem zadd_processing (queue : Str) (score : Int) (id inst : Uuid) :
    exists ks', zadd ((Key.processing queue).render keyPrefix) score
        (processingMember id.text inst.text) ks = (.ok (), ks') ∧
      Formed keyPrefix ks' ∧ Frame keyPrefix [Key.processing queue] ks ks' ∧
      forall m, Holds keyPrefix ks' queue m <->
        (m = processingMember id.text inst.text ∨
          Holds keyPrefix ks queue m) := by
  rcases zadd_spec (h.kinds (Key.processing queue)) score
    (processingMember id.text inst.text) with ⟨ks', hadd, honly, hkind, hmem⟩
  refine ⟨ks', hadd, ?_, frame_of_onlyAt honly mem_cons_self, hmem⟩
  apply h.of_onlyAt honly hkind
  · nofun
  · intro queue' heq m hm
    cases heq
    rcases (hmem m).mp hm with hm | hm
    · exact ⟨id, inst, hm⟩
    · exact h.members queue m hm

theorem zrem_processing (queue member : Str) :
    exists ks', zrem ((Key.processing queue).render keyPrefix) member ks =
        (.ok (), ks') ∧
      Formed keyPrefix ks' ∧ Frame keyPrefix [Key.processing queue] ks ks' ∧
      forall m, Holds keyPrefix ks' queue m <->
        (m ≠ member ∧ Holds keyPrefix ks queue m) := by
  rcases zrem_spec (h.kinds (Key.processing queue)) member
    with ⟨ks', hrem, honly, hkind, hmem⟩
  refine ⟨ks', hrem, ?_, frame_of_onlyAt honly mem_cons_self, hmem⟩
  apply h.of_onlyAt honly hkind
  · nofun
  · intro queue' heq m hm
    cases heq
    exact h.members queue m ((hmem m).mp hm).2

theorem hset_metadata (queue field value : Str) :
    exists ks', hset ((Key.metadata queue).render keyPrefix) field value ks =
        (.ok (), ks') ∧
      Formed keyPrefix ks' ∧ Frame keyPrefix [Key.metadata queue] ks ks' := by
  rcases hset_spec (h.kinds (Key.metadata queue)) field value
    with ⟨ks', hset, honly, hkind⟩
  refine ⟨ks', hset, ?_, frame_of_onlyAt honly mem_cons_self⟩
  apply h.of_onlyAt honly hkind
  · nofun
  · nofun

theorem sadd_names (name : Str) :
    exists n ks', sadd (Key.names.render keyPrefix) name ks =
        (.ok n, ks') ∧
      Formed keyPrefix ks' ∧ Frame keyPrefix [Key.names] ks ks' := by
  rcases sadd_spec (h.kinds Key.names) name with ⟨n, ks', hadd, honly, hkind⟩
  refine ⟨n, ks', hadd, ?_, frame_of_onlyAt honly mem_cons_self⟩
  apply h.of_onlyAt honly hkind
  · nofun
  · nofun

end

end Commands

/-!
# Enqueue and dequeue
-/

section Scripts

variable {keyPrefix : Str} {ks : Keyspace}

theorem Frame.mono {keys keys' : List Key} {ks' : Keyspace}
    (h : Frame keyPrefix keys ks ks') (hsub : forall k, k ∈ keys -> k ∈ keys') :
    Frame keyPrefix keys' ks ks' :=
  fun k hk => h k fun hmem => hk (hsub k hmem)

theorem createQueue_effect (h : Formed keyPrefix ks) (name now : Str) :
    exists n ks', createQueueScript (Key.names.render keyPrefix)
        ((Key.metadata name).render keyPrefix) name now ks =
          (.ok n, ks') ∧
      Formed keyPrefix ks' ∧
      Frame keyPrefix [Key.names, Key.metadata name] ks ks' := by
  rcases sadd_names h name with ⟨n, ks₁, hadd, h₁, hframe₁⟩
  rcases hset_metadata h₁ name "created_at".toList now
    with ⟨ks₂, hset₂, h₂, hframe₂⟩
  rcases hset_metadata h₂ name "last_updated".toList now
    with ⟨ks₃, hset₃, h₃, hframe₃⟩
  have hadded : Frame keyPrefix [Key.names, Key.metadata name] ks ks₁ :=
    hframe₁.mono (by simp)
  have hrun := bind_of_ok (f := fun n => if n = 0 then pure 0 else do
    hset ((Key.metadata name).render keyPrefix) "created_at".toList now
    hset ((Key.metadata name).render keyPrefix) "last_updated".toList now
    pure 1) hadd
  by_cases hn : n = 0
  · rw [if_pos hn] at hrun
    exact ⟨0, ks₁, hrun, h₁, hadded⟩
  · rw [if_neg hn, bind_of_ok hset₂, bind_of_ok hset₃] at hrun
    refine ⟨1, ks₃, hrun, h₃, ?_⟩
    exact hadded.trans ((hframe₂.trans hframe₃).mono (by simp))

theorem enqueue_effect (h : Formed keyPrefix ks) (now : SystemTime)
    (queue : Str) (id : Uuid) (payload : Str) :
    enqueueCall keyPrefix now queue id.text payload ks = (.ok 0, ks) ∨
    exists ks', enqueueCall keyPrefix now queue id.text payload ks =
        (.ok 1, ks') ∧
      Formed keyPrefix ks' ∧
      Frame keyPrefix
        [Key.message queue id, Key.pending queue, Key.metadata queue] ks ks' ∧
      pendingOf keyPrefix ks' queue =
        pendingOf keyPrefix ks queue ++ [id.text] ∧
      valueAt keyPrefix ks' (Key.message queue id) =
        some (RedisValue.string payload) := by
  have hmember := sismember_eq (h.kinds Key.names) queue
  have h₁ := h.put_string (k := Key.message queue id) rfl payload
  have hset₁ : Redis.set ((Key.message queue id).render keyPrefix) payload ks =
      (.ok (), ks.put _ (RedisValue.string payload)) := rfl
  have hframe₁ : Frame keyPrefix [Key.message queue id] ks _ := frame_of_onlyAt
      (onlyAt_put ks _ (RedisValue.string payload)) mem_cons_self
  rcases rpush_pending h₁ queue id with ⟨ks₂, hpush, h₂, hframe₂, hpending⟩
  rcases hset_metadata h₂ queue "last_updated".toList (secsText now)
    with ⟨ks₃, hset₃, h₃, hframe₃⟩
  have hcall : enqueueCall keyPrefix now queue id.text payload =
      enqueueScript (Key.names.render keyPrefix)
        ((Key.message queue id).render keyPrefix)
        ((Key.pending queue).render keyPrefix)
        ((Key.metadata queue).render keyPrefix) queue id.text payload
        (secsText now) := rfl
  rw [hcall, enqueueScript, bind_of_ok hmember]
  cases decide (queue ∈ setAt ks (Key.render keyPrefix Key.names)) with
  | false => exact Or.inl rfl
  | true =>
    apply Or.inr
    rw [if_neg (by simp), bind_of_ok hset₁, bind_of_ok hpush,
      bind_of_ok hset₃]
    refine ⟨ks₃, rfl, h₃, ?_, ?_, ?_⟩
    · exact (hframe₁.mono (by simp)).trans
        ((hframe₂.mono (by simp)).trans (hframe₃.mono (by simp)))
    · rw [hframe₃.pendingOf (by simp), hpending, hframe₁.pendingOf (by simp)]
    · rw [hframe₃ _ (by simp), hframe₂ _ (by simp), valueAt, find_put_self]

/-- The three ways in which the script of `dequeue` ends. -/
theorem dequeue_effect (h : Formed keyPrefix ks) (now : SystemTime)
    (inst : Uuid) (queue : Str) :
    dequeueCall keyPrefix now inst queue ks = (.ok none, ks) ∨
    (exists message ks',
      dequeueCall keyPrefix now inst queue ks = (.error message, ks') ∧
      Formed keyPrefix ks' ∧ Frame keyPrefix [Key.pending queue] ks ks' ∧
      pendingOf keyPrefix ks' queue = pendingOf keyPrefix ks queue) ∨
    exists (id : Uuid) (payload : Str) (ks' : Keyspace),
      dequeueCall keyPrefix now inst queue ks =
        (.ok (some (id.text, payload)), ks') ∧
      Formed keyPrefix ks' ∧
      Frame keyPrefix [Key.pending queue, Key.processing queue] ks ks' ∧
      pendingOf keyPrefix ks queue =
        id.text :: pendingOf keyPrefix ks' queue ∧
      forall m, Holds keyPrefix ks' queue m <->
        (m = processingMember id.text inst.text ∨
          Holds keyPrefix ks queue m) := by
  rcases lpop_pending h queue with ⟨_, hpop⟩ | ⟨id, ks₁, hpop, h₁, hframe₁, hcons⟩
  · apply Or.inl
    exact bind_of_ok hpop
  apply Or.inr
  have hrun : dequeueCall keyPrefix now inst queue ks = _ :=
    bind_of_ok hpop
  rcases get_eq (h₁.kinds (Key.message queue id)) with
    ⟨_, hget⟩ | ⟨payload, _, hget⟩
  · rcases lpush_pending h₁ queue id with ⟨ks₂, hpush, h₂, hframe₂, hpending⟩
    apply Or.inl
    refine ⟨missingPayload id.text, ks₂, ?_, h₂, hframe₁.trans hframe₂, ?_⟩
    · exact hrun.trans
        ((bind_of_ok hget).trans (bind_of_ok hpush))
    · rw [hpending, hcons]
  · rcases zadd_processing h₁ queue (unixSecs now) id inst with
      ⟨ks₂, hadd, h₂, hframe₂, hmem⟩
    apply Or.inr
    refine ⟨id, payload, ks₂, ?_, h₂, ?_, ?_, ?_⟩
    · exact hrun.trans
        ((bind_of_ok hget).trans (bind_of_ok hadd))
    · exact (hframe₁.mono (by simp)).trans (hframe₂.mono (by simp))
    · rw [hcons, hframe₂.pendingOf (by simp)]
    · intro m
      rw [hmem m, hframe₁.holds (by simp)]

/-!
# Acknowledge and clear
-/

private theorem mem_processing (queue : Str) {m : Str} :
    m ∈ zrangeOf (scoresAt ks ((Key.processing queue).render keyPrefix)) <->
      Holds keyPrefix ks queue m :=
  mem_zrangeOf

theorem zrange_processing (h : Formed keyPrefix ks) (queue : Str) :
    zrange ((Key.processing queue).render keyPrefix) ks =
      (.ok
        (zrangeOf (scoresAt ks ((Key.processing queue).render keyPrefix))),
        ks) :=
  zrange_eq (h.kinds (Key.processing queue))

/-- An acknowledgement took the member of an instance and its payload. -/
def AckedMember (keyPrefix queue msgId : Str) (ks ks' : Keyspace) : Prop :=
  exists id inst : Uuid, msgId = id.text ∧
    Holds keyPrefix ks queue (processingMember id.text inst.text) ∧
    Formed keyPrefix ks' ∧
    Frame keyPrefix [.processing queue, .message queue id] ks ks' ∧
    (forall m, Holds keyPrefix ks' queue m <->
      (m ≠ processingMember id.text inst.text ∧ Holds keyPrefix ks queue m)) ∧
    valueAt keyPrefix ks' (.message queue id) = none

private theorem ackMembers_effect (h : Formed keyPrefix ks)
    (queue msgId : Str) (members : List Str)
    (hmembers : forall m, m ∈ members -> Holds keyPrefix ks queue m) :
    (ackMembers ((Key.processing queue).render keyPrefix)
        ((QueueKeys.new keyPrefix queue).message msgId) msgId members ks =
      (.ok false, ks)) ∨
    exists ks', ackMembers ((Key.processing queue).render keyPrefix)
        ((QueueKeys.new keyPrefix queue).message msgId) msgId members ks =
          (.ok true, ks') ∧ AckedMember keyPrefix queue msgId ks ks' := by
  induction members with
  | nil => exact .inl rfl
  | cons member rest ih =>
    have hholds := hmembers member mem_cons_self
    rcases h.members queue member hholds with ⟨id, inst, hmember⟩
    rw [ackMembers]
    by_cases htake : member.take (msgId.length + 1) = msgId ++ ['|']
    · have hid : msgId = id.text := by
        rw [hmember] at htake
        exact (take_processingMember id inst.separator_not_mem).mp htake
      rcases zrem_processing h queue member with
        ⟨ks₁, hrem, h₁, hframe₁, hmem⟩
      rw [if_pos htake, bind_of_ok hrem]
      subst hid
      have hdel : Redis.del ((Key.message queue id).render keyPrefix) ks₁ =
          (.ok (), del ks₁ _) := rfl
      have hframe₂ : Frame keyPrefix [Key.message queue id] ks₁ _ :=
        frame_of_onlyAt (onlyAt_del ks₁ _) mem_cons_self
      refine .inr ⟨_, bind_of_ok hdel, id, inst, rfl, ?_,
        h₁.del (Key.message queue id), ?_, ?_, ?_⟩
      · rw [← hmember]
        exact hholds
      · exact (hframe₁.mono (by simp)).trans (hframe₂.mono (by simp))
      · intro m
        rw [hframe₂.holds (by simp), hmem m, hmember]
      · rw [valueAt, find_del_self]
    · rw [if_neg htake]
      exact ih fun m hm => hmembers m (mem_cons_of_mem _ hm)

theorem ack_effect (h : Formed keyPrefix ks) (queue msgId : Str) :
    ackCall keyPrefix queue msgId ks = (.ok false, ks) ∨
    exists ks', ackCall keyPrefix queue msgId ks = (.ok true, ks') ∧
      AckedMember keyPrefix queue msgId ks ks' := by
  have hrun : ackCall keyPrefix queue msgId ks = ackMembers
      ((Key.processing queue).render keyPrefix)
      ((QueueKeys.new keyPrefix queue).message msgId) msgId
      (zrangeOf (scoresAt ks ((Key.processing queue).render keyPrefix))) ks :=
    bind_of_ok (zrange_processing h queue)
  rw [hrun]
  exact ackMembers_effect h queue msgId _ fun m hm => (mem_processing queue).mp hm

/-- Deletes the payloads of the given messages and nothing else. -/
def Deletes (keyPrefix queue : Str) (deleted : Uuid -> Prop)
    (ks ks' : Keyspace) : Prop :=
  (forall id, deleted id ->
    valueAt keyPrefix ks' (.message queue id) = none) ∧
  forall k, (forall id, deleted id -> k ≠ .message queue id) ->
    valueAt keyPrefix ks' k = valueAt keyPrefix ks k

private theorem deletePayloads_effect (h : Formed keyPrefix ks) (queue : Str)
    (ids : List Uuid) :
    exists ks', deletePayloads (QueueKeys.new keyPrefix queue).messagePrefix
        (ids.map Uuid.text) ks = (.ok (), ks') ∧ Formed keyPrefix ks' ∧
      Deletes keyPrefix queue (fun id => id ∈ ids) ks ks' := by
  induction ids generalizing ks with
  | nil =>
    refine ⟨ks, rfl, h, ?_, fun _ _ => rfl⟩
    intro id hid
    cases hid
  | cons id rest ih =>
    have hdel : Redis.del ((Key.message queue id).render keyPrefix) ks =
        (.ok (), del ks _) := rfl
    have hframe : Frame keyPrefix [Key.message queue id] ks _ :=
      frame_of_onlyAt (onlyAt_del ks _) mem_cons_self
    rcases ih (h.del (Key.message queue id)) with ⟨ks', hrest, h', hdeletes⟩
    refine ⟨ks', ?_, h', ?_, ?_⟩
    · rw [map_cons, deletePayloads]
      exact (bind_of_ok hdel).trans hrest
    · intro id' hid'
      by_cases hmem : id' ∈ rest
      · exact hdeletes.1 id' hmem
      · rw [hdeletes.2 _ (by
          intro id'' hid'' heq
          cases heq
          exact hmem hid'')]
        rcases mem_cons.mp hid' with heq | hin
        · rw [heq, valueAt, find_del_self]
        · exact absurd hin hmem
    · intro k hk
      rw [hdeletes.2 k fun id' hid' =>
        hk id' (mem_cons_of_mem _ hid')]
      apply hframe
      simpa using hk id mem_cons_self

theorem exists_ids {texts : List Str}
    (h : forall e, e ∈ texts -> exists id : Uuid, e = id.text) :
    exists ids : List Uuid, texts = ids.map Uuid.text := by
  induction texts with
  | nil => exact ⟨[], rfl⟩
  | cons e rest ih =>
    rcases h e mem_cons_self with ⟨id, hid⟩
    rcases ih fun e' he' => h e' (mem_cons_of_mem _ he') with ⟨ids, hids⟩
    exact ⟨id :: ids, by rw [hid, hids, map_cons]⟩

theorem mem_map_text {ids : List Uuid} {id : Uuid} :
    id.text ∈ ids.map Uuid.text <-> id ∈ ids := by
  constructor
  · intro h
    rcases mem_map.mp h with ⟨id', hid', heq⟩
    rw [← Uuid.text_injective heq]
    exact hid'
  · intro h
    exact mem_map_of_mem h

/-- The message waits in the queue or is held by an instance. -/
def Present (keyPrefix : Str) (ks : Keyspace) (queue : Str) (id : Uuid) :
    Prop :=
  id.text ∈ pendingOf keyPrefix ks queue ∨
    exists inst, Holds keyPrefix ks queue (processingMember id.text inst)

private theorem heldIds_eq (h : Formed keyPrefix ks) (queue : Str) :
    exists held : List Uuid,
      ((zrangeOf (scoresAt ks
        ((Key.processing queue).render keyPrefix))).filterMap
          splitMember).map Prod.fst = held.map Uuid.text ∧
      forall id, id ∈ held <-> exists inst,
        Holds keyPrefix ks queue (processingMember id.text inst) := by
  have htexts : forall e, e ∈ ((zrangeOf (scoresAt ks
      ((Key.processing queue).render keyPrefix))).filterMap
        splitMember).map Prod.fst -> exists id : Uuid, e = id.text := by
    intro e he
    rcases mem_map.mp he with ⟨p, hp, rfl⟩
    rcases mem_filterMap.mp hp with ⟨m, hm, hsplit⟩
    rcases h.members queue m ((mem_processing queue).mp hm) with ⟨id, inst, rfl⟩
    rw [splitMember_processingMember] at hsplit
    cases hsplit
    exact ⟨id, rfl⟩
  rcases exists_ids htexts with ⟨held, hheld⟩
  refine ⟨held, hheld, ?_⟩
  intro id
  rw [← mem_map_text, ← hheld, mem_map]
  constructor
  · intro hp
    rcases hp with ⟨p, hp, hfst⟩
    rcases mem_filterMap.mp hp with ⟨m, hm, hsplit⟩
    have hholds := (mem_processing queue).mp hm
    rcases h.members queue m hholds with ⟨id', inst, rfl⟩
    rw [splitMember_processingMember] at hsplit
    cases hsplit
    exact ⟨inst.text, by rw [← hfst]; exact hholds⟩
  · intro hex
    rcases hex with ⟨inst, hholds⟩
    refine ⟨(id.text, inst), mem_filterMap.mpr ?_, rfl⟩
    exact ⟨_, (mem_processing queue).mpr hholds,
      splitMember_processingMember id inst⟩

theorem clear_effect (h : Formed keyPrefix ks) (queue : Str) :
    exists n ks', clearCall keyPrefix queue ks = (.ok n, ks') ∧
      Formed keyPrefix ks' ∧ pendingOf keyPrefix ks' queue = [] ∧
      (forall m, ¬ Holds keyPrefix ks' queue m) ∧
      (forall id, Present keyPrefix ks queue id ->
        valueAt keyPrefix ks' (Key.message queue id) = none) ∧
      forall k, k ≠ Key.pending queue -> k ≠ Key.processing queue ->
        (forall id, Present keyPrefix ks queue id ->
          k ≠ Key.message queue id) ->
        valueAt keyPrefix ks' k = valueAt keyPrefix ks k := by
  rcases exists_ids (h.pending queue) with ⟨ids, hids⟩
  have hrange := lrange_eq (h.kinds (Key.pending queue))
  rw [show listAt ks ((Key.pending queue).render keyPrefix) = _ from hids]
    at hrange
  rcases deletePayloads_effect h queue ids with ⟨ks₁, hdel₁, h₁, hgone₁, hsame₁⟩
  have hframe₁ : Frame keyPrefix (ids.map (Key.message queue)) ks ks₁ := by
    intro k hk
    apply hsame₁
    intro id hid heq
    rw [heq] at hk
    exact hk (mem_map_of_mem hid)
  rcases heldIds_eq h₁ queue with ⟨held, hheld, hmem⟩
  have hmem₀ : forall id, id ∈ held <-> exists inst,
      Holds keyPrefix ks queue (processingMember id.text inst) := by
    intro id
    have hholds : forall m, Holds keyPrefix ks₁ queue m <->
        Holds keyPrefix ks queue m :=
      fun m => hframe₁.holds (by simp) m
    rw [hmem id]
    simp only [hholds]
  have hpresent : forall id, Present keyPrefix ks queue id <->
      (id ∈ ids ∨ id ∈ held) := by
    intro id
    rw [Present, hids, mem_map_text, hmem₀]
  rcases deletePayloads_effect h₁ queue held with ⟨ks₂, hdel₂, h₂, hgone₂, hsame₂⟩
  have hdel₃ : Redis.del ((Key.pending queue).render keyPrefix) ks₂ =
      (.ok (), Assoc.del ks₂ _) := rfl
  have hframe₃ : Frame keyPrefix [Key.pending queue] ks₂ _ :=
    frame_of_onlyAt (onlyAt_del ks₂ _) mem_cons_self
  have h₃ := h₂.del (Key.pending queue)
  have hdel₄ : Redis.del ((Key.processing queue).render keyPrefix)
      (Assoc.del ks₂ ((Key.pending queue).render keyPrefix)) =
      (.ok (), Assoc.del _ _) := rfl
  have hframe₄ : Frame keyPrefix [Key.processing queue]
      (Assoc.del ks₂ ((Key.pending queue).render keyPrefix)) _ :=
    frame_of_onlyAt (onlyAt_del _ _) mem_cons_self
  have h₄ := h₃.del (Key.processing queue)
  refine ⟨(ids.map Uuid.text).length + (zrangeOf (scoresAt ks₁
    ((Key.processing queue).render keyPrefix))).length, _, ?_, h₄, ?_,
    not_holds_del queue, ?_, ?_⟩
  · refine (bind_of_ok hrange).trans ?_
    refine (bind_of_ok hdel₁).trans ?_
    refine (bind_of_ok (zrange_processing h₁ queue)).trans ?_
    rw [hheld]
    refine (bind_of_ok hdel₂).trans ?_
    exact (bind_of_ok hdel₃).trans (bind_of_ok hdel₄)
  · rw [hframe₄.pendingOf (by simp), pendingOf_del]
  · intro id hid
    rw [hframe₄ _ (by simp), hframe₃ _ (by simp)]
    by_cases hin : id ∈ held
    · exact hgone₂ id hin
    · rw [hsame₂ _ (by
        intro id' hid' heq
        cases heq
        exact hin hid')]
      rcases (hpresent id).mp hid with hin' | hin'
      · exact hgone₁ id hin'
      · exact absurd hin' hin
  · intro k hpending hprocessing hk
    rw [hframe₄ k (by simpa using hprocessing),
      hframe₃ k (by simpa using hpending),
      hsame₂ k fun id hid => hk id ((hpresent id).mpr (.inr hid)),
      hsame₁ k fun id hid => hk id ((hpresent id).mpr (.inl hid))]

/-!
# Recover
-/

/-- The messages and instances of members whose liveness key is absent. -/
def lapsed (keyPrefix : Str) (ks : Keyspace) (members : List Str) :
    List (Str × Str) :=
  (members.filterMap splitMember).filter fun p =>
    (ks.find (heartbeatKey keyPrefix p.2)).isNone

theorem lapsed_cons (id inst : Uuid) (rest : List Str) :
    lapsed keyPrefix ks (processingMember id.text inst.text :: rest) =
      if (valueAt keyPrefix ks (.alive inst)).isNone then
        (id.text, inst.text) :: lapsed keyPrefix ks rest
      else
        lapsed keyPrefix ks rest := by
  rw [lapsed, filterMap_cons, splitMember_processingMember, filter_cons]
  rfl

variable {members : List Str}

theorem lapsed_congr {ks' : Keyspace}
    (h : forall m, m ∈ members -> exists id inst : Uuid,
      m = processingMember id.text inst.text)
    (halive : forall inst, valueAt keyPrefix ks' (.alive inst) =
      valueAt keyPrefix ks (.alive inst)) :
    lapsed keyPrefix ks' members = lapsed keyPrefix ks members := by
  induction members with
  | nil => rfl
  | cons m rest ih =>
    rcases h m mem_cons_self with ⟨id, inst, rfl⟩
    rw [lapsed_cons, lapsed_cons, halive inst,
      ih fun m' hm' => h m' (mem_cons_of_mem _ hm')]

theorem mem_lapsed {p : Str × Str}
    (h : p ∈ lapsed keyPrefix ks members) :
    processingMember p.1 p.2 ∈ members := by
  rcases mem_filterMap.mp (mem_of_mem_filter h) with
    ⟨m, hm, hsplit⟩
  rw [← eq_of_splitMember hsplit]
  exact hm

theorem splitMember_lapsed {p : Str × Str}
    (h : p ∈ lapsed keyPrefix ks members) :
    splitMember (processingMember p.1 p.2) = some p := by
  rcases mem_filterMap.mp (mem_of_mem_filter h) with
    ⟨m, _, hsplit⟩
  rw [← eq_of_splitMember hsplit]
  exact hsplit

theorem nodup_lapsed (h : members.Nodup) :
    (lapsed keyPrefix ks members).Nodup := by
  apply List.Nodup.filter
  apply h.filterMap
  intro m m' p hm hm'
  rw [eq_of_splitMember hm, eq_of_splitMember hm']

/-- Members whose instance has no liveness key go back to the pending list. -/
def Recovers (keyPrefix queue : Str) (members : List Str)
    (ks ks' : Keyspace) : Prop :=
  Formed keyPrefix ks' ∧
  Frame keyPrefix [.processing queue, .pending queue] ks ks' ∧
  (forall m, Holds keyPrefix ks' queue m <->
    (Holds keyPrefix ks queue m ∧
      forall p, p ∈ lapsed keyPrefix ks members ->
        m ≠ processingMember p.1 p.2)) ∧
  pendingOf keyPrefix ks' queue = pendingOf keyPrefix ks queue ++
    (lapsed keyPrefix ks members).map Prod.fst

private theorem recoverMembers_effect (h : Formed keyPrefix ks) (queue : Str)
    (hmembers : forall m, m ∈ members -> Holds keyPrefix ks queue m)
    (hnodup : members.Nodup) :
    exists n ks', recoverMembers ((Key.processing queue).render keyPrefix)
        ((Key.pending queue).render keyPrefix) (instanceKeyPrefix keyPrefix)
        members ks = (.ok n, ks') ∧
      Recovers keyPrefix queue members ks ks' := by
  induction members generalizing ks with
  | nil =>
    refine ⟨0, ks, rfl, h, Frame.refl _ _ _, ?_, ?_⟩
    · intro m
      constructor
      · intro hm
        exact ⟨hm, nofun⟩
      · intro hm
        exact hm.1
    · exact (append_nil _).symm
  | cons member rest ih =>
    rcases h.members queue member (hmembers member mem_cons_self) with
      ⟨id, inst, rfl⟩
    have hrest := fun m hm => hmembers m (mem_cons_of_mem _ hm)
    have hshape := fun m hm => h.members queue m (hrest m hm)
    have halive : existsKey ((Key.alive inst).render keyPrefix) ks =
        (.ok (valueAt keyPrefix ks (Key.alive inst)).isSome, ks) := rfl
    rw [nodup_cons] at hnodup
    rw [recoverMembers, splitMember_processingMember]
    cases hvalue : valueAt keyPrefix ks (Key.alive inst) with
    | some v =>
      rw [hvalue] at halive
      rcases ih h hrest hnodup.2 with ⟨n, ks', hrun, hrecovers⟩
      refine ⟨n, ks', (bind_of_ok halive).trans hrun, ?_⟩
      rw [Recovers, lapsed_cons, hvalue, if_neg (by simp)]
      exact hrecovers
    | none =>
      rw [hvalue] at halive
      rcases zrem_processing h queue (processingMember id.text inst.text) with
          ⟨ks₁, hrem, h₁, hframe₁, hmem₁⟩
      rcases rpush_pending h₁ queue id with
        ⟨ks₂, hpush, h₂, hframe₂, hpending₂⟩
      have hmem₂ : forall m, Holds keyPrefix ks₂ queue m <->
          (m ≠ processingMember id.text inst.text ∧
            Holds keyPrefix ks queue m) := by
        intro m
        rw [hframe₂.holds (by simp), hmem₁ m]
      have hframe : Frame keyPrefix
          [Key.processing queue, Key.pending queue] ks ks₂ :=
        (hframe₁.mono (by simp)).trans (hframe₂.mono (by simp))
      have hsame : lapsed keyPrefix ks₂ rest = lapsed keyPrefix ks rest :=
        lapsed_congr hshape fun inst' => hframe _ (by simp)
      have hlapsed : lapsed keyPrefix ks
          (processingMember id.text inst.text :: rest) =
          (id.text, inst.text) :: lapsed keyPrefix ks rest := by
        rw [lapsed_cons, hvalue]
        rfl
      rcases ih h₂ (fun m hm => (hmem₂ m).mpr ⟨fun heq =>
        hnodup.1 (by rw [← heq]; exact hm), hrest m hm⟩) hnodup.2 with
          ⟨n, ks', hrun, h', hframe', hmem', hpending'⟩
      refine ⟨n + 1, ks', ?_, h', hframe.trans hframe', ?_, ?_⟩
      · refine (bind_of_ok halive).trans ?_
        refine (bind_of_ok hrem).trans ?_
        refine (bind_of_ok hpush).trans ?_
        exact bind_of_ok hrun
      · intro m
        rw [hmem' m, hmem₂ m, hsame, hlapsed]
        constructor
        · intro hm
          refine ⟨hm.1.2, ?_⟩
          intro p hp
          rcases mem_cons.mp hp with heq | hin
          · rw [heq]
            exact hm.1.1
          · exact hm.2 p hin
        · intro hm
          exact ⟨⟨hm.2 _ mem_cons_self, hm.1⟩,
            fun p hp => hm.2 p (mem_cons_of_mem _ hp)⟩
      · rw [hpending', hpending₂, hframe₁.pendingOf (by simp), hsame,
          hlapsed, map_cons, append_assoc]
        rfl

/-- The members of the processing set, as a sweep reads them. -/
def membersOf (keyPrefix : Str) (ks : Keyspace) (queue : Str) : List Str :=
  zrangeOf (scoresAt ks ((Key.processing queue).render keyPrefix))

theorem recover_effect (h : Formed keyPrefix ks) (queue : Str) :
    exists n ks', recoverStaleCall keyPrefix queue ks = (.ok n, ks') ∧
      Recovers keyPrefix queue (membersOf keyPrefix ks queue) ks ks' := by
  have hholds : forall m, m ∈ membersOf keyPrefix ks queue ->
      Holds keyPrefix ks queue m :=
    fun m hm => (mem_processing queue).mp hm
  rcases recoverMembers_effect h queue hholds (nodup_zrangeOf _) with
    ⟨n, ks', hrun, hrecovers⟩
  exact ⟨n, ks',
    (bind_of_ok (zrange_processing h queue)).trans hrun, hrecovers⟩

end Scripts

end RedisQueue

end Queue
end OpenViking
