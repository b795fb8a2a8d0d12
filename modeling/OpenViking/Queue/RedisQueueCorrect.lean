import OpenViking.Queue.RedisScripts

/-!
# Queue safety across instances

The server takes one step for every script, heartbeat or expiry, in any order
and from any number of instances.  Every message has a life: it waits, is held
by an instance, goes back to waiting when a sweep finds the liveness key of its
holder absent, and ends acknowledged or cleared.  The keyspace always shows
where each message is in its life.
-/

namespace OpenViking
namespace Queue

open Paths Redis List

namespace RedisQueue

/-!
# Steps of the server
-/

inductive Label where
  | createQueue (now : SystemTime) (name : Str)
  | enqueue (now : SystemTime) (queue : Str) (id : Uuid) (data : Bytes)
      (timestamp : SystemTime)
  | dequeue (now : SystemTime) (inst : Uuid) (queue : Str)
  | ack (queue msgId : Str)
  | clear (queue : Str)
  | recoverStale (queue : Str)
  | heartbeat (inst : Uuid)
  | expire (inst : Uuid)

/-- What an observer of the server writes down.  A message is recovered when a
sweep finds it in the processing set of an instance without liveness key. -/
inductive Event where
  | enqueued (queue : Str) (id : Uuid)
  | dequeued (queue id : Str) (inst : Uuid)
  | acked (queue id : Str)
  | cleared (queue : Str)
  | recovered (queue id inst : Str)
deriving DecidableEq

def step (codec : Codec) (keyPrefix : Str) (ks : Keyspace) :
    Label -> List Event × Keyspace
  | .createQueue now name => ([], (createQueue keyPrefix now name ks).2)
  | .enqueue now queue id data timestamp =>
    match enqueue codec keyPrefix now queue ⟨id.text, data, timestamp⟩ ks with
    | (.ok _, ks) => ([.enqueued queue id], ks)
    | (.error _, ks) => ([], ks)
  | .dequeue now inst queue =>
    match dequeueCall keyPrefix now inst queue ks with
    | (.ok (some (id, _)), ks) => ([.dequeued queue id inst], ks)
    | (_, ks) => ([], ks)
  | .ack queue msgId =>
    match ackCall keyPrefix queue msgId ks with
    | (.ok true, ks) => ([.acked queue msgId], ks)
    | (_, ks) => ([], ks)
  | .clear queue =>
    match clearCall keyPrefix queue ks with
    | (.ok _, ks) => ([.cleared queue], ks)
    | (.error _, ks) => ([], ks)
  | .recoverStale queue =>
    ((lapsed keyPrefix ks (membersOf keyPrefix ks queue)).map fun p =>
        .recovered queue p.1 p.2,
      (recoverStaleCall keyPrefix queue ks).2)
  | .heartbeat inst =>
    ([], (Redis.set (heartbeatKey keyPrefix inst.text) ['1'] ks).2)
  | .expire inst =>
    ([], (Redis.del (heartbeatKey keyPrefix inst.text) ks).2)

structure Server where
  keyspace : Keyspace
  log : List Event

namespace Server

def start : Server where
  keyspace := ∅
  log := []

def advance (codec : Codec) (keyPrefix : Str) (s : Server) (l : Label) :
    Server :=
  let r := step codec keyPrefix s.keyspace l
  { keyspace := r.2, log := s.log ++ r.1 }

def run (codec : Codec) (keyPrefix : Str) (labels : List Label) : Server :=
  labels.foldl (advance codec keyPrefix) start

end Server

/-!
# What has to hold
-/

def isEnqueue (id : Uuid) : Event -> Bool
  | .enqueued _ id' => id' == id
  | _ => false

/-- How often a message identifier was enqueued. -/
def enqueueCount (id : Uuid) (log : List Event) : Nat :=
  log.countP (isEnqueue id)

variable (keyPrefix : Str)

def HeldBy (ks : Keyspace) (queue : Str) (id : Uuid)
    (inst : Str) : Prop :=
  Holds keyPrefix ks queue (processingMember id.text inst)

/-- Once in the pending list, or once in the processing set, not both. -/
def OccursOnce (ks : Keyspace) (queue : Str) (id : Uuid) :
    Prop :=
  ((pendingOf keyPrefix ks queue).count id.text = 1 ∧
    forall inst, ¬ HeldBy keyPrefix ks queue id inst) ∨
  ((pendingOf keyPrefix ks queue).count id.text = 0 ∧
    exists inst, forall inst', HeldBy keyPrefix ks queue id inst' <->
      inst' = inst)

def HasPayload (ks : Keyspace) (queue : Str) (id : Uuid) :
    Prop :=
  exists payload, valueAt keyPrefix ks (.message queue id) =
    some (.string payload)

structure QueueSafe (keyPrefix : Str) (s : Server) : Prop where
  live : forall queue id before after,
    s.log = before ++ .enqueued queue id :: after ->
    enqueueCount id s.log = 1 ->
    .acked queue id.text ∉ after -> .cleared queue ∉ after ->
    OccursOnce keyPrefix s.keyspace queue id ∧
      HasPayload keyPrefix s.keyspace queue id ∧
      forall queue', queue' ≠ queue ->
        ¬ Present keyPrefix s.keyspace queue' id
  acked : forall queue id, enqueueCount id s.log = 1 ->
    .acked queue id.text ∈ s.log ->
    valueAt keyPrefix s.keyspace (.message queue id) = none ∧
      forall queue', ¬ Present keyPrefix s.keyspace queue' id
  redelivered : forall queue queue' inst inst' before between after
    (id : Uuid),
    s.log = before ++ .dequeued queue id.text inst :: between ++
      .dequeued queue' id.text inst' :: after ->
    enqueueCount id s.log = 1 ->
    .recovered queue id.text inst.text ∈ between

/-!
# The life of a message
-/

inductive Life where
  | fresh
  | waiting (queue : Str)
  | held (queue inst : Str)
  | acked (queue : Str)
  | cleared (queue : Str)
deriving DecidableEq

namespace Life

/-- The life after an event; none for an event that may not happen now. -/
def next (id : Uuid) (life : Life) : Event -> Option Life
  | .enqueued queue id' =>
    if id' = id then
      if life = fresh then some (waiting queue) else none
    else some life
  | .dequeued queue id' inst =>
    if id' = id.text then
      if life = waiting queue then some (held queue inst.text) else none
    else some life
  | .acked queue id' =>
    if id' = id.text then
      match life with
      | held queue' _ => if queue' = queue then some (acked queue) else none
      | _ => none
    else some life
  | .cleared queue =>
    match life with
    | waiting queue' =>
      if queue' = queue then some (cleared queue) else some life
    | held queue' _ =>
      if queue' = queue then some (cleared queue) else some life
    | _ => some life
  | .recovered queue id' inst =>
    if id' = id.text then
      if life = held queue inst then some (waiting queue) else none
    else some life

def follow (id : Uuid) (life : Life) : List Event -> Option Life
  | [] => some life
  | e :: rest =>
    match life.next id e with
    | none => none
    | some life' => life'.follow id rest

theorem follow_cons {id : Uuid} {life life' : Life} {e : Event}
    {rest : List Event} :
    life.follow id (e :: rest) = some life' <->
      exists mid, life.next id e = some mid ∧
        mid.follow id rest = some life' := by
  rw [follow]
  cases life.next id e with
  | none => simp
  | some mid => simp

theorem follow_append {id : Uuid} {life life' : Life} {es es' : List Event} :
    life.follow id (es ++ es') = some life' <->
      exists mid, life.follow id es = some mid ∧
        mid.follow id es' = some life' := by
  induction es generalizing life with
  | nil => simp [follow]
  | cons e rest ih =>
    rw [cons_append, follow_cons]
    constructor
    · intro h
      rcases h with ⟨mid, hmid, hrest⟩
      rcases ih.mp hrest with ⟨mid', hmid', hrest'⟩
      exact ⟨mid', follow_cons.mpr ⟨mid, hmid, hmid'⟩, hrest'⟩
    · intro h
      rcases h with ⟨mid', hmid', hrest'⟩
      rcases follow_cons.mp hmid' with ⟨mid, hmid, hrest⟩
      exact ⟨mid, hmid, ih.mpr ⟨mid', hrest, hrest'⟩⟩

end Life

/-!
# Where a message is

The keyspace agrees with the life of a message.  A step that leaves alone what
the keyspace says about a message leaves it where it is.
-/

/-- The message is nowhere, except perhaps in one queue. -/
def OnlyIn (ks : Keyspace) (queues : List Str) (id : Uuid) :
    Prop :=
  forall queue, queue ∉ queues -> ¬ Present keyPrefix ks queue id

def Located (ks : Keyspace) (id : Uuid) : Life -> Prop
  | .fresh => OnlyIn keyPrefix ks [] id
  | .waiting queue =>
    (pendingOf keyPrefix ks queue).count id.text = 1 ∧
    (forall inst, ¬ HeldBy keyPrefix ks queue id inst) ∧
    HasPayload keyPrefix ks queue id ∧ OnlyIn keyPrefix ks [queue] id
  | .held queue inst =>
    (pendingOf keyPrefix ks queue).count id.text = 0 ∧
    (forall inst', HeldBy keyPrefix ks queue id inst' <-> inst' = inst) ∧
    HasPayload keyPrefix ks queue id ∧ OnlyIn keyPrefix ks [queue] id
  | .acked queue =>
    OnlyIn keyPrefix ks [] id ∧
    valueAt keyPrefix ks (.message queue id) = none
  | .cleared queue =>
    OnlyIn keyPrefix ks [] id ∧
    valueAt keyPrefix ks (.message queue id) = none

/-- The two keyspaces say the same about a message. -/
structure SameFor (keyPrefix : Str) (id : Uuid) (ks ks' : Keyspace) :
    Prop where
  count : forall queue, (pendingOf keyPrefix ks' queue).count id.text =
    (pendingOf keyPrefix ks queue).count id.text
  held : forall queue inst, HeldBy keyPrefix ks' queue id inst <->
    HeldBy keyPrefix ks queue id inst
  value : forall queue, valueAt keyPrefix ks' (.message queue id) =
    valueAt keyPrefix ks (.message queue id)

theorem SameFor.refl (id : Uuid) (ks : Keyspace) : SameFor keyPrefix id ks ks :=
  ⟨fun _ => rfl, fun _ _ => Iff.rfl, fun _ => rfl⟩

section Places

variable {keyPrefix : Str} {ks ks' : Keyspace} {id : Uuid}

variable {queue : Str}

theorem present_iff : Present keyPrefix ks queue id <->
    ((pendingOf keyPrefix ks queue).count id.text ≠ 0 ∨
      exists inst, HeldBy keyPrefix ks queue id inst) := by
  rw [Present, ← count_pos_iff, Nat.pos_iff_ne_zero]
  rfl

theorem SameFor.present (h : SameFor keyPrefix id ks ks') :
    Present keyPrefix ks' queue id <-> Present keyPrefix ks queue id := by
  rw [present_iff, present_iff, h.count]
  simp only [h.held]

theorem SameFor.onlyIn (h : SameFor keyPrefix id ks ks') {queues : List Str}
    (honly : OnlyIn keyPrefix ks queues id) : OnlyIn keyPrefix ks' queues id := by
  intro queue hqueue hpresent
  exact honly queue hqueue (h.present.mp hpresent)

variable {life : Life}

theorem SameFor.located (h : SameFor keyPrefix id ks ks')
    (hlife : Located keyPrefix ks id life) : Located keyPrefix ks' id life := by
  cases life with
  | fresh => exact h.onlyIn hlife
  | waiting queue =>
    rcases hlife with ⟨hcount, hheld, ⟨payload, hpayload⟩, honly⟩
    refine ⟨(h.count queue).trans hcount, ?_,
      ⟨payload, (h.value queue).trans hpayload⟩, h.onlyIn honly⟩
    intro inst hinst
    exact hheld inst ((h.held queue inst).mp hinst)
  | held queue inst =>
    rcases hlife with ⟨hcount, hheld, ⟨payload, hpayload⟩, honly⟩
    refine ⟨(h.count queue).trans hcount, ?_,
      ⟨payload, (h.value queue).trans hpayload⟩, h.onlyIn honly⟩
    intro inst'
    rw [h.held queue inst', hheld inst']
  | acked queue => exact ⟨h.onlyIn hlife.1, (h.value queue).trans hlife.2⟩
  | cleared queue => exact ⟨h.onlyIn hlife.1, (h.value queue).trans hlife.2⟩

theorem Located.of_present (h : Located keyPrefix ks id life)
    (hpresent : Present keyPrefix ks queue id) :
    life = .waiting queue ∨ exists inst, life = .held queue inst := by
  have hone : forall queue', OnlyIn keyPrefix ks [queue'] id ->
      queue' = queue := by
    intro queue' honly
    by_contra hne
    exact honly queue (by simpa using Ne.symm hne) hpresent
  cases life with
  | fresh => exact absurd hpresent (h queue (by simp))
  | waiting queue' =>
    rw [hone queue' h.2.2.2]
    exact .inl rfl
  | held queue' inst =>
    rw [hone queue' h.2.2.2]
    exact .inr ⟨inst, rfl⟩
  | acked queue' => exact absurd hpresent (h.1 queue (by simp))
  | cleared queue' => exact absurd hpresent (h.1 queue (by simp))

theorem Located.of_pending (h : Located keyPrefix ks id life)
    (hmem : id.text ∈ pendingOf keyPrefix ks queue) :
    life = .waiting queue := by
  rcases h.of_present (.inl hmem) with hlife | ⟨inst, hlife⟩
  · exact hlife
  · rw [hlife] at h
    exact absurd hmem (count_eq_zero.mp h.1)

theorem Located.of_held (h : Located keyPrefix ks id life)
    {inst : Str} (hheld : HeldBy keyPrefix ks queue id inst) :
    life = .held queue inst := by
  rcases h.of_present (.inr ⟨inst, hheld⟩) with hlife | ⟨inst', hlife⟩
  · rw [hlife] at h
    exact absurd hheld (h.2.1 inst)
  · rw [hlife] at h ⊢
    rw [(h.2.1 inst).mp hheld]

theorem Frame.sameFor {keys : List Key} (h : Frame keyPrefix keys ks ks')
    (hpending : forall queue, .pending queue ∉ keys)
    (hprocessing : forall queue, .processing queue ∉ keys)
    (hmessage : forall queue, .message queue id ∉ keys) :
    SameFor keyPrefix id ks ks' where
  count := by
    intro queue
    rw [h.pendingOf (hpending queue)]
  held := fun queue inst => h.holds (hprocessing queue) _
  value := fun queue => h _ (hmessage queue)

end Places

/-!
# One step

What a step writes down about a message is a legal next part of its life, and
the message is then where that life says.
-/

def Follows (id : Uuid) (ks : Keyspace)
    (r : List Event × Keyspace) : Prop :=
  forall life, Located keyPrefix ks id life ->
    (forall queue, .enqueued queue id ∈ r.1 -> life = .fresh) ->
    exists life', life.follow id r.1 = some life' ∧
      Located keyPrefix r.2 id life'

section Steps

variable {keyPrefix : Str} {ks ks' : Keyspace} {id : Uuid}

theorem SameFor.follows_nil (h : SameFor keyPrefix id ks ks') :
    Follows keyPrefix id ks ([], ks') :=
  fun life hlife _ => ⟨life, rfl, h.located hlife⟩

theorem SameFor.follows_of_next (h : SameFor keyPrefix id ks ks') {e : Event}
    (hnext : forall life, Located keyPrefix ks id life ->
      life.next id e = some life) : Follows keyPrefix id ks ([e], ks') := by
  intro life hlife _
  refine ⟨life, ?_, h.located hlife⟩
  rw [Life.follow_cons]
  exact ⟨life, hnext life hlife, rfl⟩

theorem follows_of_next {e : Event}
    (h : forall life, Located keyPrefix ks id life ->
      (forall queue, e = .enqueued queue id -> life = .fresh) ->
      exists life', life.next id e = some life' ∧
        Located keyPrefix ks' id life') :
    Follows keyPrefix id ks ([e], ks') := by
  intro life hlife hfresh
  rcases h life hlife (fun queue heq => hfresh queue (by simp [heq])) with
    ⟨life', hnext, hlife'⟩
  exact ⟨life', Life.follow_cons.mpr ⟨life', hnext, rfl⟩, hlife'⟩

variable {queue : Str}

theorem onlyIn_of_frame {keys : List Key} (hframe : Frame keyPrefix keys ks ks')
    (hpending : forall queue', .pending queue' ∈ keys -> queue' = queue)
    (hprocessing : forall queue', .processing queue' ∈ keys ->
      queue' = queue) (h : OnlyIn keyPrefix ks [queue] id) :
    OnlyIn keyPrefix ks' [queue] id := by
  intro queue' hqueue' hpresent
  have hne : queue' ≠ queue := by simpa using hqueue'
  apply h queue' hqueue'
  rw [Present, ← hframe.pendingOf fun hmem => hne (hpending queue' hmem)]
  rcases hpresent with hin | ⟨inst, hinst⟩
  · exact .inl hin
  · exact .inr ⟨inst, (hframe.holds
      (fun hmem => hne (hprocessing queue' hmem)) _).mp hinst⟩

theorem onlyIn_mono {queues queues' : List Str}
    (h : OnlyIn keyPrefix ks queues id)
    (hsub : forall queue, queue ∈ queues -> queue ∈ queues') :
    OnlyIn keyPrefix ks queues' id :=
  fun queue hqueue => h queue fun hmem => hqueue (hsub queue hmem)

theorem onlyIn_nil (h : OnlyIn keyPrefix ks [queue] id)
    (hqueue : ¬ Present keyPrefix ks queue id) : OnlyIn keyPrefix ks [] id := by
  intro queue' _
  by_cases heq : queue' = queue
  · rw [heq]
    exact hqueue
  · exact h queue' (by simpa using heq)

theorem enqueue_follows (hid : Uuid) {payload : Str} (hframe : Frame keyPrefix
      [.message queue hid, .pending queue, .metadata queue] ks ks')
    (hpending : pendingOf keyPrefix ks' queue =
      pendingOf keyPrefix ks queue ++ [hid.text])
    (hvalue : valueAt keyPrefix ks' (.message queue hid) =
      some (.string payload)) :
    Follows keyPrefix id ks ([.enqueued queue hid], ks') := by
  by_cases hsame : hid = id
  · subst hsame
    apply follows_of_next
    intro life hlife hfresh
    rw [hfresh queue rfl] at hlife ⊢
    refine ⟨.waiting queue, by simp [Life.next], ?_, ?_, ⟨payload, hvalue⟩,
      ?_⟩
    · have hzero : (pendingOf keyPrefix ks queue).count hid.text = 0 := by
        by_contra hne
        exact hlife queue (by simp) (present_iff.mpr (.inl hne))
      rw [hpending, count_append, hzero, count_singleton_self]
    · intro inst hinst
      exact hlife queue (by simp)
        (.inr ⟨inst, (hframe.holds (by simp) _).mp hinst⟩)
    · exact onlyIn_of_frame hframe (by simp) (by simp)
        (onlyIn_mono hlife (by simp))
  · have hne : hid.text ≠ id.text := fun h => hsame (Uuid.text_injective h)
    have hsameFor : SameFor keyPrefix id ks ks' := by
      constructor
      · intro queue'
        by_cases hq : queue' = queue
        · rw [hq, hpending, count_append, count_singleton,
            if_neg (by simpa using hne), Nat.add_zero]
        · rw [hframe.pendingOf (by simpa using hq)]
      · intro queue' inst
        exact hframe.holds (by simp) _
      · intro queue'
        apply hframe
        simp [Ne.symm hsame]
    apply hsameFor.follows_of_next
    intro life _
    simp [Life.next, hsame]

theorem dequeue_follows {hid inst : Uuid}
    (hframe : Frame keyPrefix [.pending queue, .processing queue] ks ks')
    (hpending : pendingOf keyPrefix ks queue =
      hid.text :: pendingOf keyPrefix ks' queue)
    (hmem : forall m, Holds keyPrefix ks' queue m <->
      (m = processingMember hid.text inst.text ∨ Holds keyPrefix ks queue m)) :
    Follows keyPrefix id ks ([.dequeued queue hid.text inst], ks') := by
  by_cases hsame : hid = id
  · subst hsame
    apply follows_of_next
    intro life hlife _
    have hin : hid.text ∈ pendingOf keyPrefix ks queue := by
      rw [hpending]
      exact mem_cons_self
    have hwaiting := hlife.of_pending hin
    rw [hwaiting] at hlife ⊢
    rcases hlife with ⟨hcount, hheld, ⟨payload, hpayload⟩, honly⟩
    refine ⟨.held queue inst.text, by simp [Life.next], ?_, ?_,
      ⟨payload, ?_⟩, onlyIn_of_frame hframe (by simp) (by simp) honly⟩
    · rw [hpending, count_cons_self] at hcount
      omega
    · intro inst'
      rw [HeldBy, hmem]
      constructor
      · intro h
        rcases h with h | h
        · exact (processingMember_inj h).2
        · exact absurd h (hheld inst')
      · intro h
        rw [h]
        exact .inl rfl
    · rw [hframe _ (by simp), hpayload]
  · have hne : hid.text ≠ id.text := fun h => hsame (Uuid.text_injective h)
    have hsameFor : SameFor keyPrefix id ks ks' := by
      constructor
      · intro queue'
        by_cases hq : queue' = queue
        · rw [hq, hpending, count_cons_of_ne hne]
        · rw [hframe.pendingOf (by simpa using hq)]
      · intro queue' inst'
        by_cases hq : queue' = queue
        · rw [hq, HeldBy, hmem]
          constructor
          · intro h
            rcases h with h | h
            · exact absurd (processingMember_inj h).1 (Ne.symm hsame)
            · exact h
          · exact .inr
        · exact hframe.holds (by simpa using hq) _
      · intro queue'
        exact hframe _ (by simp)
    apply hsameFor.follows_of_next
    intro life _
    simp [Life.next, hne]

theorem ack_follows {msgId : Str} (h : AckedMember keyPrefix queue msgId ks ks') :
    Follows keyPrefix id ks ([.acked queue msgId], ks') := by
  rcases h with ⟨hid, inst, rfl, hholds, _, hframe, hmem, hnone⟩
  by_cases hsame : hid = id
  · subst hsame
    apply follows_of_next
    intro life hlife _
    have hheld := hlife.of_held hholds
    rw [hheld] at hlife ⊢
    rcases hlife with ⟨hcount, hiff, _, honly⟩
    refine ⟨.acked queue, by simp [Life.next], ?_, hnone⟩
    apply onlyIn_nil (onlyIn_of_frame hframe (by simp) (by simp) honly)
    rw [present_iff, hframe.pendingOf (by simp)]
    intro hpresent
    rcases hpresent with hpresent | ⟨inst', hinst'⟩
    · exact hpresent hcount
    · rcases (hmem _).mp hinst' with ⟨hother, hold⟩
      rw [(hiff inst').mp hold] at hother
      exact hother rfl
  · have hne : hid.text ≠ id.text := fun h => hsame (Uuid.text_injective h)
    have hsameFor : SameFor keyPrefix id ks ks' := by
      constructor
      · intro queue'
        rw [hframe.pendingOf (by simp)]
      · intro queue' inst'
        by_cases hq : queue' = queue
        · rw [hq, HeldBy, hmem]
          constructor
          · exact And.right
          · intro hold
            exact ⟨fun heq =>
              hsame (processingMember_inj heq).1.symm, hold⟩
        · exact hframe.holds (by simpa using hq) _
      · intro queue'
        apply hframe
        simp [Ne.symm hsame]
    apply hsameFor.follows_of_next
    intro life _
    simp [Life.next, hne]

theorem clear_follows (hpending : pendingOf keyPrefix ks' queue = [])
    (hheld : forall m, ¬ Holds keyPrefix ks' queue m)
    (hgone : forall hid, Present keyPrefix ks queue hid ->
      valueAt keyPrefix ks' (.message queue hid) = none)
    (hsame : forall k, k ≠ .pending queue -> k ≠ .processing queue ->
      (forall hid, Present keyPrefix ks queue hid ->
        k ≠ .message queue hid) ->
      valueAt keyPrefix ks' k = valueAt keyPrefix ks k) :
    Follows keyPrefix id ks ([.cleared queue], ks') := by
  have hcount : forall queue', queue' ≠ queue ->
      pendingOf keyPrefix ks' queue' = pendingOf keyPrefix ks queue' := by
    intro queue' hq
    exact listAt_congr (hsame (.pending queue') (by simpa using hq) (by simp)
      (by simp))
  have hholds : forall queue' m, queue' ≠ queue ->
      (Holds keyPrefix ks' queue' m <-> Holds keyPrefix ks queue' m) := by
    intro queue' m hq
    rw [Holds, Holds, Scored, Scored, scoresAt_congr
      (hsame (.processing queue') (by simp) (by simpa using hq) (by simp))]
  have habsent : ¬ Present keyPrefix ks' queue id := by
    intro hpresent
    rcases hpresent with hin | ⟨inst, hinst⟩
    · rw [hpending] at hin
      cases hin
    · exact hheld _ hinst
  by_cases hpresent : Present keyPrefix ks queue id
  · apply follows_of_next
    intro life hlife _
    have hcleared : life.next id (.cleared queue) =
          some (.cleared queue) ∧ OnlyIn keyPrefix ks [queue] id := by
      rcases hlife.of_present hpresent with heq | ⟨inst, heq⟩
      · rw [heq] at hlife ⊢
        exact ⟨by simp [Life.next], hlife.2.2.2⟩
      · rw [heq] at hlife ⊢
        exact ⟨by simp [Life.next], hlife.2.2.2⟩
    refine ⟨.cleared queue, hcleared.1, ?_, hgone id hpresent⟩
    apply onlyIn_nil _ habsent
    intro queue' hq hin
    have hne : queue' ≠ queue := by simpa using hq
    apply hcleared.2 queue' hq
    rcases hin with hin | ⟨inst, hinst⟩
    · rw [hcount queue' hne] at hin
      exact .inl hin
    · exact .inr ⟨inst, (hholds queue' _ hne).mp hinst⟩
  · have hsameFor : SameFor keyPrefix id ks ks' := by
      constructor
      · intro queue'
        by_cases hq : queue' = queue
        · have hzero : (pendingOf keyPrefix ks queue).count id.text = 0 :=
            count_eq_zero.mpr fun hin => hpresent (.inl hin)
          rw [hq, hpending, hzero]
          rfl
        · rw [hcount queue' hq]
      · intro queue' inst
        by_cases hq : queue' = queue
        · rw [hq]
          constructor
          · intro hinst
            exact absurd hinst (hheld _)
          · intro hinst
            exact absurd (.inr ⟨inst, hinst⟩) hpresent
        · exact hholds queue' _ hq
      · intro queue'
        apply hsame _ (by simp) (by simp)
        intro hid hin heq
        cases heq
        exact hpresent hin
    apply hsameFor.follows_of_next
    intro life hlife
    cases life with
    | waiting queue' =>
      have hne : queue' ≠ queue := by
        intro heq
        rw [heq] at hlife
        apply hpresent
        rw [present_iff, hlife.1]
        exact .inl Nat.one_ne_zero
      simp [Life.next, hne]
    | held queue' inst =>
      have hne : queue' ≠ queue := by
        intro heq
        rw [heq] at hlife
        exact hpresent (.inr ⟨inst, (hlife.2.1 inst).mpr rfl⟩)
      simp [Life.next, hne]
    | _ => rfl

theorem Life.follow_recovered_other {life : Life}
    {ps : List (Str × Str)} (h : forall p, p ∈ ps -> p.1 ≠ id.text) :
    life.follow id (ps.map fun p => .recovered queue p.1 p.2) =
      some life := by
  induction ps with
  | nil => rfl
  | cons p rest ih =>
    rw [map_cons, Life.follow_cons]
    refine ⟨life, by simp [Life.next, h p mem_cons_self], ?_⟩
    exact ih fun p' hp' => h p' (mem_cons_of_mem _ hp')

theorem recover_follows
    (h : Recovers keyPrefix queue (membersOf keyPrefix ks queue) ks ks') :
    Follows keyPrefix id ks
      ((lapsed keyPrefix ks (membersOf keyPrefix ks queue)).map fun p =>
        .recovered queue p.1 p.2, ks') := by
  rcases h with ⟨_, hframe, hmem, hpending⟩
  have hlapsed : forall p, p ∈ lapsed keyPrefix ks (membersOf keyPrefix ks queue)
      -> Holds keyPrefix ks queue (processingMember p.1 p.2) :=
    fun p hp => mem_zrangeOf.mp (mem_lapsed hp)
  have hsplit : forall p, p ∈ lapsed keyPrefix ks (membersOf keyPrefix ks queue)
      -> splitMember (processingMember p.1 p.2) = some p :=
    fun p hp => splitMember_lapsed hp
  have hnodup : (lapsed keyPrefix ks (membersOf keyPrefix ks queue)).Nodup :=
    nodup_lapsed (nodup_zrangeOf _)
  generalize lapsed keyPrefix ks (membersOf keyPrefix ks queue) = ps at *
  intro life hlife _
  by_cases hin : exists inst, (id.text, inst) ∈ ps
  · rcases hin with ⟨inst, hin⟩
    have heq := hlife.of_held (hlapsed _ hin)
    rw [heq] at hlife ⊢
    rcases hlife with ⟨hcount, hiff, ⟨payload, hpayload⟩, honly⟩
    rcases mem_iff_append.mp hin with ⟨front, back, rfl⟩
    have hothers : forall p, p ∈ front ∨ p ∈ back -> p.1 ≠ id.text := by
      intro p hp hfst
      have hheld := hlapsed p (by
        rcases hp with hp | hp
        · exact mem_append_left _ hp
        · exact mem_append_right _ (mem_cons_of_mem _ hp))
      rcases p with ⟨t, inst'⟩
      cases hfst
      rw [(hiff inst').mp hheld] at hp
      rw [nodup_middle, nodup_cons, mem_append] at hnodup
      exact hnodup.1 hp
    refine ⟨.waiting queue, ?_, ?_, ?_, ⟨payload, ?_⟩,
      onlyIn_of_frame hframe (by simp) (by simp) honly⟩
    · show Life.follow id _ (map _ _) = _
      rw [map_append, Life.follow_append]
      refine ⟨.held queue inst,
        Life.follow_recovered_other fun p hp => hothers p (.inl hp), ?_⟩
      rw [map_cons, Life.follow_cons]
      refine ⟨.waiting queue, by simp [Life.next], ?_⟩
      exact Life.follow_recovered_other fun p hp => hothers p (.inr hp)
    · have hfront : (front.map Prod.fst).count id.text = 0 := by
        rw [count_eq_zero, mem_map]
        intro hex
        rcases hex with ⟨p, hp, hfst⟩
        exact hothers p (.inl hp) hfst
      have hback : (back.map Prod.fst).count id.text = 0 := by
        rw [count_eq_zero, mem_map]
        intro hex
        rcases hex with ⟨p, hp, hfst⟩
        exact hothers p (.inr hp) hfst
      rw [hpending, count_append, hcount, map_append, map_cons,
        count_append, hfront, count_cons_self, hback]
    · intro inst' hinst'
      rcases (hmem _).mp hinst' with ⟨hold, hnot⟩
      exact hnot _ hin (by rw [(hiff inst').mp hold])
    · rw [hframe _ (by simp), hpayload]
  · have hothers : forall p, p ∈ ps -> p.1 ≠ id.text := by
      intro p hp hfst
      exact hin ⟨p.2, by rw [← hfst]; exact hp⟩
    refine ⟨life, Life.follow_recovered_other hothers, ?_⟩
    apply SameFor.located _ hlife
    constructor
    · intro queue'
      by_cases hq : queue' = queue
      · have hzero : (ps.map Prod.fst).count id.text = 0 := by
          rw [count_eq_zero, mem_map]
          intro hex
          rcases hex with ⟨p, hp, hfst⟩
          exact hothers p hp hfst
        rw [hq, hpending, count_append, hzero, Nat.add_zero]
      · rw [hframe.pendingOf (by simpa using hq)]
    · intro queue' inst
      by_cases hq : queue' = queue
      · rw [hq, HeldBy, hmem]
        constructor
        · exact And.left
        · intro hold
          refine ⟨hold, ?_⟩
          intro p hp heq
          have hp' := hsplit p hp
          rw [← heq, splitMember_processingMember] at hp'
          cases hp'
          exact hothers _ hp rfl
      · exact hframe.holds (by simpa using hq) _
    · intro queue'
      exact hframe _ (by simp)

end Steps

section Calls

variable {codec : Codec} {keyPrefix : Str} {ks : Keyspace}

section

variable (h : Formed keyPrefix ks) (now : SystemTime)

include h now

theorem createQueue_follows (name : Str) :
    Formed keyPrefix (createQueue keyPrefix now name ks).2 ∧
      forall id, Follows keyPrefix id ks
        ([], (createQueue keyPrefix now name ks).2) := by
  rcases createQueue_effect h name (secsText now) with
    ⟨n, ks', hrun, h', hframe⟩
  have hrun' : createQueueScript (queueNamesKey keyPrefix)
      (QueueKeys.new keyPrefix name).metadata name (secsText now) ks =
        (.ok n, ks') := hrun
  have hks : (createQueue keyPrefix now name ks).2 = ks' := by
    rw [createQueue, hrun']
    cases n with
    | zero => rfl
    | succ n => rfl
  rw [hks]
  exact ⟨h', fun id =>
    (hframe.sameFor (by simp) (by simp) (by simp)).follows_nil⟩

theorem enqueueStep_follows
    (queue : Str) (hid : Uuid) (data : Bytes) (timestamp : SystemTime) :
    Formed keyPrefix
        (step codec keyPrefix ks
          (.enqueue now queue hid data timestamp)).2 ∧
      forall id, Follows keyPrefix id ks (step codec keyPrefix ks
        (.enqueue now queue hid data timestamp)) := by
  rcases enqueue_effect h now queue hid
    (encodeMessage codec ⟨hid.text, data, timestamp⟩) with
      hrun | ⟨ks', hrun, h', hframe, hpending, hvalue⟩
  · rw [step, enqueue, hrun]
    exact ⟨h, fun id => (SameFor.refl keyPrefix id ks).follows_nil⟩
  · rw [step, enqueue, hrun]
    exact ⟨h', fun id => enqueue_follows hid hframe hpending hvalue⟩

theorem dequeueStep_follows (inst : Uuid) (queue : Str) : Formed keyPrefix
        (step codec keyPrefix ks (.dequeue now inst queue)).2 ∧
      forall id, Follows keyPrefix id ks
        (step codec keyPrefix ks (.dequeue now inst queue)) := by
  rcases dequeue_effect h now inst queue with
    hrun | ⟨message, ks', hrun, h', hframe, hpending⟩ |
      ⟨hid, payload, ks', hrun, h', hframe, hpending, hmem⟩
  · rw [step, hrun]
    exact ⟨h, fun id => (SameFor.refl keyPrefix id ks).follows_nil⟩
  · rw [step, hrun]
    refine ⟨h', fun id => SameFor.follows_nil ⟨?_, ?_, ?_⟩⟩
    · intro queue'
      by_cases hq : queue' = queue
      · rw [hq, hpending]
      · rw [hframe.pendingOf (by simpa using hq)]
    · intro queue' inst'
      exact hframe.holds (by simp) _
    · intro queue'
      exact hframe _ (by simp)
  · rw [step, hrun]
    exact ⟨h', fun id => dequeue_follows hframe hpending hmem⟩

end

theorem ackStep_follows (h : Formed keyPrefix ks) (queue msgId : Str) :
    Formed keyPrefix (step codec keyPrefix ks (.ack queue msgId)).2 ∧
      forall id, Follows keyPrefix id ks
        (step codec keyPrefix ks (.ack queue msgId)) := by
  rcases ack_effect h queue msgId with hrun | ⟨ks', hrun, hacked⟩
  · rw [step, hrun]
    exact ⟨h, fun id => (SameFor.refl keyPrefix id ks).follows_nil⟩
  · rw [step, hrun]
    refine ⟨?_, fun id => ack_follows hacked⟩
    rcases hacked with ⟨_, _, _, _, h', _⟩
    exact h'

theorem alive_follows {ks' : Keyspace} {inst : Uuid}
    (honly : OnlyAt ((Key.alive inst).render keyPrefix) ks ks') (id : Uuid) :
    Follows keyPrefix id ks ([], ks') := by
  have hframe : Frame keyPrefix [Key.alive inst] ks ks' :=
    frame_of_onlyAt honly mem_cons_self
  exact (hframe.sameFor (by simp) (by simp) (by simp)).follows_nil

theorem step_follows (codec : Codec) (h : Formed keyPrefix ks) (l : Label) :
    Formed keyPrefix (step codec keyPrefix ks l).2 ∧
      forall id, Follows keyPrefix id ks (step codec keyPrefix ks l) := by
  cases l with
  | createQueue now name => exact createQueue_follows h now name
  | enqueue now queue hid data timestamp =>
    exact enqueueStep_follows h now queue hid data timestamp
  | dequeue now inst queue => exact dequeueStep_follows h now inst queue
  | ack queue msgId => exact ackStep_follows h queue msgId
  | clear queue =>
    rcases clear_effect h queue with
      ⟨n, ks', hrun, h', hpending, hheld, hgone, hsame⟩
    rw [step, hrun]
    exact ⟨h', fun id => clear_follows hpending hheld hgone hsame⟩
  | recoverStale queue =>
    rcases recover_effect h queue with ⟨n, ks', hrun, hrecovers⟩
    rw [step, hrun]
    exact ⟨hrecovers.1, fun id => recover_follows hrecovers⟩
  | heartbeat inst =>
    exact ⟨h.put_string (k := .alive inst) rfl ['1'],
      fun id => alive_follows (onlyAt_put ks _ _) id⟩
  | expire inst =>
    exact ⟨h.del (.alive inst), fun id => alive_follows (onlyAt_del ks _) id⟩

end Calls

/-!
# Runs
-/

theorem enqueueCount_append (id : Uuid) (es es' : List Event) :
    enqueueCount id (es ++ es') = enqueueCount id es + enqueueCount id es' :=
  countP_append

theorem enqueueCount_pos {id : Uuid} {queue : Str} {es : List Event}
    (h : .enqueued queue id ∈ es) : 0 < enqueueCount id es :=
  countP_pos_iff.mpr ⟨_, h, beq_self_eq_true id⟩

namespace Life

variable {id : Uuid}

variable {life : Life}

/-- Without an `enqueue` of its identifier a message stays unknown. -/
theorem follow_fresh {es : List Event}
    (h : enqueueCount id es = 0) (hfollow : fresh.follow id es = some life) :
    life = fresh := by
  induction es with
  | nil =>
    cases hfollow
    rfl
  | cons e rest ih =>
    rcases follow_cons.mp hfollow with ⟨mid, hmid, hrest⟩
    rw [show e :: rest = [e] ++ rest from rfl, enqueueCount_append] at h
    have hfresh : mid = fresh := by
      cases e with
      | enqueued queue id' =>
        by_cases hid : id' = id
        · have hin : Event.enqueued queue id ∈
              [Event.enqueued queue id'] := by simp [hid]
          have hpos := enqueueCount_pos hin
          omega
        · simpa [next, hid] using hmid.symm
      | dequeued queue id' inst =>
        by_cases hid : id' = id.text
        · simp [next, hid] at hmid
        · simpa [next, hid] using hmid.symm
      | acked queue id' =>
        by_cases hid : id' = id.text
        · simp [next, hid] at hmid
        · simpa [next, hid] using hmid.symm
      | cleared queue => simpa [next] using hmid.symm
      | recovered queue id' inst =>
        by_cases hid : id' = id.text
        · simp [next, hid] at hmid
        · simpa [next, hid] using hmid.symm
    rw [hfresh] at hrest
    exact ih (by omega) hrest

variable {life' : Life}

theorem follow_inv (Inv : Life -> Prop) {es : List Event}
    (hnext : forall {life life' e}, e ∈ es -> Inv life ->
      life.next id e = some life' -> Inv life') (h : Inv life)
    (hfollow : life.follow id es = some life') : Inv life' := by
  induction es generalizing life with
  | nil =>
    cases hfollow
    exact h
  | cons e rest ih =>
    rcases follow_cons.mp hfollow with ⟨mid, hmid, hrest⟩
    exact ih (fun he => hnext (mem_cons_of_mem _ he))
      (hnext mem_cons_self h hmid) hrest

/-- The message is in a queue, waiting or held. -/
def Live (queue : Str) (life : Life) : Prop :=
  life = waiting queue ∨ exists inst, life = held queue inst

variable {queue : Str}

theorem next_live {e : Event}
    (h : Live queue life) (hacked : e ≠ .acked queue id.text)
    (hcleared : e ≠ .cleared queue) (hnext : life.next id e = some life') :
    Live queue life' := by
  have hlive : Live queue life' ∨ life' = life := by
    rcases h with rfl | ⟨inst, rfl⟩
    · cases e with
      | dequeued queue' id' inst' =>
        simp only [next] at hnext
        split at hnext
        · split at hnext
          · rename_i heq
            cases heq
            cases hnext
            exact .inl (.inr ⟨_, rfl⟩)
          · cases hnext
        · cases hnext
          exact .inr rfl
      | cleared queue' =>
        have hne : queue ≠ queue' := fun heq => hcleared (by rw [heq])
        simp only [next, if_neg hne] at hnext
        cases hnext
        exact .inr rfl
      | _ =>
        simp only [next] at hnext
        split at hnext
        · simp at hnext
        · cases hnext
          exact .inr rfl
    · cases e with
      | recovered queue' id' inst' =>
        simp only [next] at hnext
        split at hnext
        · split at hnext
          · rename_i heq
            cases heq
            cases hnext
            exact .inl (.inl rfl)
          · cases hnext
        · cases hnext
          exact .inr rfl
      | cleared queue' =>
        have hne : queue ≠ queue' := fun heq => hcleared (by rw [heq])
        simp only [next, if_neg hne] at hnext
        cases hnext
        exact .inr rfl
      | acked queue' id' =>
        simp only [next] at hnext
        split at hnext
        · rename_i hid
          split at hnext
          · rename_i heq
            exact absurd (by rw [hid, heq]) hacked
          · cases hnext
        · cases hnext
          exact .inr rfl
      | _ =>
        simp only [next] at hnext
        split at hnext
        · simp at hnext
        · cases hnext
          exact .inr rfl
  rcases hlive with hlive | heq
  · exact hlive
  · rw [heq]
    exact h

/-- The message has been delivered and will not wait again by itself. -/
def Delivered (queue inst : Str) (life : Life) : Prop :=
  life = held queue inst ∨ life = acked queue ∨ life = cleared queue

theorem next_delivered {inst : Str} {e : Event} (h : Delivered queue inst life)
    (hrecovered : e ≠ .recovered queue id.text inst)
    (hnext : life.next id e = some life') : Delivered queue inst life' := by
  have hcases : life' = acked queue ∨ life' = cleared queue ∨ life' = life := by
    cases e with
    | enqueued queue' id' =>
      simp only [next] at hnext
      split at hnext
      · rcases h with rfl | rfl | rfl <;> simp at hnext
      · cases hnext
        exact .inr (.inr rfl)
    | dequeued queue' id' inst' =>
      simp only [next] at hnext
      split at hnext
      · rcases h with rfl | rfl | rfl <;> simp at hnext
      · cases hnext
        exact .inr (.inr rfl)
    | acked queue' id' =>
      simp only [next] at hnext
      split at hnext
      · rcases h with rfl | rfl | rfl
        · simp only at hnext
          split at hnext
          · rename_i heq
            cases hnext
            exact .inl (by rw [heq])
          · cases hnext
        · cases hnext
        · cases hnext
      · cases hnext
        exact .inr (.inr rfl)
    | cleared queue' =>
      rcases h with rfl | rfl | rfl
      · simp only [next] at hnext
        split at hnext
        · rename_i heq
          cases hnext
          exact .inr (.inl (by rw [heq]))
        · cases hnext
          exact .inr (.inr rfl)
      · cases hnext
        exact .inr (.inr rfl)
      · cases hnext
        exact .inr (.inr rfl)
    | recovered queue' id' inst' =>
      simp only [next] at hnext
      split at hnext
      · rename_i hid
        split at hnext
        · rename_i heq
          rcases h with rfl | rfl | rfl
          · cases heq
            exact absurd (by rw [hid]) hrecovered
          · cases heq
          · cases heq
        · cases hnext
      · cases hnext
        exact .inr (.inr rfl)
  rcases hcases with heq | heq | heq
  · exact .inr (.inl heq)
  · exact .inr (.inr heq)
  · rw [heq]
    exact h

theorem next_acked {e : Event}
    (hnext : (acked queue).next id e = some life') : life' = acked queue := by
  cases e with
  | cleared queue' =>
    cases hnext
    rfl
  | _ =>
    simp only [next] at hnext
    split at hnext
    · simp at hnext
    · cases hnext
      rfl

end Life

theorem formed_empty : Formed keyPrefix ∅ where
  kinds := fun _ => kindAt_of_find_none (Assoc.find_empty _)
  pending := nofun
  members := by
    intro queue m hm
    rcases hm with ⟨score, hscore⟩
    rw [show scoresAt ∅ _ = ∅ from rfl, Assoc.find_empty] at hscore
    cases hscore

theorem located_empty (id : Uuid) : Located keyPrefix ∅ id .fresh := by
  intro queue _ hpresent
  rcases hpresent with hin | ⟨inst, hinst⟩
  · cases hin
  · rcases hinst with ⟨score, hscore⟩
    rw [show scoresAt ∅ _ = ∅ from rfl, Assoc.find_empty] at hscore
    cases hscore

/-- Every message that was enqueued at most once is where its life says. -/
theorem run_located (codec : Codec) (keyPrefix : Str) (labels : List Label) :
    Formed keyPrefix (Server.run codec keyPrefix labels).keyspace ∧
    forall id, enqueueCount id (Server.run codec keyPrefix labels).log ≤ 1 ->
      exists life, Life.fresh.follow id
          (Server.run codec keyPrefix labels).log = some life ∧
        Located keyPrefix (Server.run codec keyPrefix labels).keyspace id
          life := by
  induction labels using reverseRecOn with
  | nil =>
    refine ⟨formed_empty keyPrefix, ?_⟩
    intro id _
    exact ⟨.fresh, rfl, located_empty keyPrefix id⟩
  | append_singleton labels l ih =>
    rcases ih with ⟨hformed, hlocated⟩
    have hrun : Server.run codec keyPrefix (labels ++ [l]) =
        (Server.run codec keyPrefix labels).advance codec keyPrefix l := by
      rw [Server.run, foldl_append]
      rfl
    rw [hrun]
    generalize Server.run codec keyPrefix labels = s at *
    rcases step_follows codec hformed l with ⟨hformed', hfollows⟩
    refine ⟨hformed', ?_⟩
    intro id hcount
    change enqueueCount id (s.log ++ (step codec keyPrefix s.keyspace l).1) ≤ 1
      at hcount
    rw [enqueueCount_append] at hcount
    rcases hlocated id (by omega) with ⟨life, hfollow, hlife⟩
    rcases hfollows id life hlife (by
      intro queue hin
      have hpos := enqueueCount_pos hin
      exact Life.follow_fresh (by omega) hfollow) with
        ⟨life', hfollow', hlife'⟩
    exact ⟨life', Life.follow_append.mpr ⟨life, hfollow, hfollow'⟩, hlife'⟩

section Safe

variable {keyPrefix : Str} {ks : Keyspace} {id : Uuid}

variable {life : Life} {queue : Str}

theorem Located.occursOnce
    (h : Located keyPrefix ks id life) (hlive : Life.Live queue life) :
    OccursOnce keyPrefix ks queue id ∧ HasPayload keyPrefix ks queue id ∧
      forall queue', queue' ≠ queue -> ¬ Present keyPrefix ks queue' id := by
  rcases hlive with rfl | ⟨inst, rfl⟩
  · rcases h with ⟨hcount, hheld, hpayload, honly⟩
    exact ⟨.inl ⟨hcount, hheld⟩, hpayload,
      fun queue' hne => honly queue' (by simpa using hne)⟩
  · rcases h with ⟨hcount, hheld, hpayload, honly⟩
    exact ⟨.inr ⟨hcount, inst, hheld⟩, hpayload,
      fun queue' hne => honly queue' (by simpa using hne)⟩

variable {after before : List Event}

theorem follow_enqueued (h : Life.fresh.follow id
      (before ++ .enqueued queue id :: after) = some life)
    (hacked : .acked queue id.text ∉ after)
    (hcleared : .cleared queue ∉ after) : Life.Live queue life := by
  rcases Life.follow_append.mp h with ⟨mid, _, hrest⟩
  rcases Life.follow_cons.mp hrest with ⟨mid', hnext, hafter⟩
  simp only [Life.next, if_pos] at hnext
  split at hnext
  · cases hnext
    refine Life.follow_inv (Life.Live queue) ?_ (.inl rfl) hafter
    intro life life' e he hlive hnext'
    exact Life.next_live hlive (fun heq => hacked (by rw [← heq]; exact he))
      (fun heq => hcleared (by rw [← heq]; exact he)) hnext'
  · cases hnext

theorem follow_acked (h : Life.fresh.follow id
      (before ++ .acked queue id.text :: after) = some life) :
    life = .acked queue := by
  rcases Life.follow_append.mp h with ⟨mid, _, hrest⟩
  rcases Life.follow_cons.mp hrest with ⟨mid', hnext, hafter⟩
  have hmid : mid' = .acked queue := by
    simp only [Life.next, if_pos] at hnext
    split at hnext
    · split at hnext
      · cases hnext
        rfl
      · cases hnext
    · cases hnext
  rw [hmid] at hafter
  refine Life.follow_inv (fun life => life = .acked queue) ?_ rfl hafter
  intro life life' e _ hlife hnext'
  rw [hlife] at hnext'
  exact Life.next_acked hnext'

theorem follow_redelivered {queue' : Str} {inst inst' : Uuid} {between : List Event}
    (h : Life.fresh.follow id (before ++
      .dequeued queue id.text inst :: between ++
        .dequeued queue' id.text inst' :: after) = some life) :
    .recovered queue id.text inst.text ∈ between := by
  by_contra hnot
  rw [append_assoc, cons_append] at h
  rcases Life.follow_append.mp h with ⟨mid, _, hrest⟩
  rcases Life.follow_cons.mp hrest with ⟨mid', hnext, hafter⟩
  rcases Life.follow_append.mp hafter with ⟨mid'', hbetween, hrest'⟩
  rcases Life.follow_cons.mp hrest' with ⟨_, hnext', _⟩
  have hmid : mid' = .held queue inst.text := by
    simp only [Life.next, if_pos] at hnext
    split at hnext
    · cases hnext
      rfl
    · cases hnext
  have hdelivered : Life.Delivered queue inst.text mid'' := by
    refine Life.follow_inv (Life.Delivered queue inst.text) ?_
      (.inl hmid) hbetween
    intro life life' e he hlife hnext''
    exact Life.next_delivered hlife
      (fun heq => hnot (by rw [← heq]; exact he)) hnext''
  simp only [Life.next, if_pos] at hnext'
  split at hnext'
  · rename_i heq
    rw [heq] at hdelivered
    rcases hdelivered with hd | hd | hd <;> cases hd
  · cases hnext'

end Safe

/-- In every reachable state of the server every message that was enqueued once
and neither acknowledged nor cleared occurs once, an acknowledged one is gone,
and no message is delivered again before a sweep has recovered it. -/
theorem run_safe (codec : Codec) (keyPrefix : Str) (labels : List Label) :
    QueueSafe keyPrefix (Server.run codec keyPrefix labels) := by
  rcases run_located codec keyPrefix labels with ⟨_, hlocated⟩
  generalize Server.run codec keyPrefix labels = s at *
  constructor
  · intro queue id before after hlog hcount hacked hcleared
    rcases hlocated id (by omega) with ⟨life, hfollow, hlife⟩
    rw [hlog] at hfollow
    exact hlife.occursOnce (follow_enqueued hfollow hacked hcleared)
  · intro queue id hcount hacked
    rcases hlocated id (by omega) with ⟨life, hfollow, hlife⟩
    rcases List.mem_iff_append.mp hacked with ⟨before, after, hlog⟩
    rw [hlog] at hfollow
    rw [follow_acked hfollow] at hlife
    exact ⟨hlife.2, fun queue' => hlife.1 queue' (by simp)⟩
  · intro queue queue' inst inst' before between after id hlog hcount
    rcases hlocated id (by omega) with ⟨life, hfollow, hlife⟩
    rw [hlog] at hfollow
    exact follow_redelivered hfollow

end RedisQueue

end Queue
end OpenViking
