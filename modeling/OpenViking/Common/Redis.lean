import OpenViking.Common.Assoc
import OpenViking.Common.Path

/-!
# A Redis server

One keyspace maps keys to values of several kinds.  A command on a key that
holds another kind of value fails.  A script is a sequence of commands; the
first command that fails ends it, and what it has written stays written.
-/

namespace OpenViking
namespace Redis

open Paths Assoc

/-!
# Values and keyspaces
-/

inductive RedisValue where
  | string (s : Str)
  | list (elements : List Str)
  | zset (scores : Assoc Str Int)
  | hash (fields : Assoc Str Str)
  | set (members : List Str)

abbrev Keyspace := Assoc Str RedisValue

/-- A script answers and leaves a keyspace behind. -/
def Script (α : Type) : Type :=
  Keyspace -> Except Str α × Keyspace

namespace Script

variable {α β : Type}

def fail (message : Str) : Script α :=
  fun ks => (.error message, ks)

def bind (x : Script α) (f : α -> Script β) : Script β :=
  fun ks =>
    match x ks with
    | (.ok a, ks') => f a ks'
    | (.error e, ks') => (.error e, ks')

instance : Monad Script where
  pure a := fun ks => (.ok a, ks)
  bind := bind

@[simp] theorem pure_apply (a : α) (ks : Keyspace) :
    (pure a : Script α) ks = (.ok a, ks) :=
  rfl

variable {ks ks' : Keyspace}

theorem bind_of_ok {x : Script α} {f : α -> Script β}
    {a : α} (h : x ks = (.ok a, ks')) : (x >>= f) ks = f a ks' := by
  show bind x f ks = f a ks'
  rw [bind, h]

theorem exists_of_bind_ok {x : Script α} {f : α -> Script β} {b : β}
    (h : (x >>= f) ks = (.ok b, ks')) :
    exists (a : α) (mid : Keyspace),
      x ks = (.ok a, mid) ∧ f a mid = (.ok b, ks') := by
  change bind x f ks = _ at h
  rw [bind] at h
  split at h
  · rename_i a mid hx
    exact ⟨a, mid, hx, h⟩
  · cases h

end Script

/-!
# Commands
-/

def wrongType : Str :=
  "WRONGTYPE Operation against a key holding the wrong kind of value".toList

def sismember (key member : Str) : Script Bool := fun ks =>
  match ks.find key with
  | none => (.ok false, ks)
  | some (.set members) =>
    (.ok (decide (member ∈ members)), ks)
  | some _ => (.error wrongType, ks)

/-- The number of new members. -/
def sadd (key member : Str) : Script Nat := fun ks =>
  match ks.find key with
  | none => (.ok 1, ks.put key (.set [member]))
  | some (.set members) =>
    if member ∈ members then (.ok 0, ks)
    else (.ok 1, ks.put key (.set (members ++ [member])))
  | some _ => (.error wrongType, ks)

def smembers (key : Str) : Script (List Str) := fun ks =>
  match ks.find key with
  | none => (.ok [], ks)
  | some (.set members) => (.ok members, ks)
  | some _ => (.error wrongType, ks)

/-- A set without members is not kept. -/
def putSet (ks : Keyspace) (key : Str) : List Str -> Keyspace
  | [] => del ks key
  | members => ks.put key (.set members)

def srem (key member : Str) : Script Unit := fun ks =>
  match ks.find key with
  | none => (.ok (), ks)
  | some (.set members) =>
    (.ok (), putSet ks key (members.filter fun m => m != member))
  | some _ => (.error wrongType, ks)

def hset (key field value : Str) : Script Unit := fun ks =>
  match ks.find key with
  | none =>
    (.ok (), ks.put key
      (.hash ((∅ : Assoc Str Str).put field value)))
  | some (.hash fields) =>
    (.ok (), ks.put key (.hash (fields.put field value)))
  | some _ => (.error wrongType, ks)

/-- `SET` replaces a value of any kind. -/
def set (key value : Str) : Script Unit := fun ks =>
  (.ok (), ks.put key (.string value))

def get (key : Str) : Script (Option Str) := fun ks =>
  match ks.find key with
  | none => (.ok none, ks)
  | some (.string s) => (.ok (some s), ks)
  | some _ => (.error wrongType, ks)

def existsKey (key : Str) : Script Bool := fun ks =>
  (.ok (ks.find key).isSome, ks)

def del (key : Str) : Script Unit := fun ks =>
  (.ok (), Assoc.del ks key)

/-- `DEL` of several keys is one command. -/
def delKeys (keys : List Str) : Script Unit := fun ks =>
  (.ok (), delAll ks keys)

/-- A list without elements is not kept. -/
def putList (ks : Keyspace) (key : Str) : List Str -> Keyspace
  | [] => Assoc.del ks key
  | elements => ks.put key (.list elements)

def lrange (key : Str) : Script (List Str) := fun ks =>
  match ks.find key with
  | none => (.ok [], ks)
  | some (.list elements) => (.ok elements, ks)
  | some _ => (.error wrongType, ks)

def rpush (key element : Str) : Script Unit := fun ks =>
  match ks.find key with
  | none => (.ok (), putList ks key [element])
  | some (.list elements) =>
    (.ok (), putList ks key (elements ++ [element]))
  | some _ => (.error wrongType, ks)

def lpush (key element : Str) : Script Unit := fun ks =>
  match ks.find key with
  | none => (.ok (), putList ks key [element])
  | some (.list elements) =>
    (.ok (), putList ks key (element :: elements))
  | some _ => (.error wrongType, ks)

def lpop (key : Str) : Script (Option Str) := fun ks =>
  match ks.find key with
  | none => (.ok none, ks)
  | some (.list []) => (.ok none, ks)
  | some (.list (element :: rest)) =>
    (.ok (some element), putList ks key rest)
  | some _ => (.error wrongType, ks)

/-- Members with equal scores are in lexicographic order. -/
def scoreLe (a b : Str × Int) : Bool :=
  decide (a.2 < b.2 ∨ (a.2 = b.2 ∧ a.1 ≤ b.1))

def zrangeOf (scores : Assoc Str Int) : List Str :=
  (scores.bindings.mergeSort scoreLe).map Prod.fst

def zrange (key : Str) : Script (List Str) := fun ks =>
  match ks.find key with
  | none => (.ok [], ks)
  | some (.zset scores) => (.ok (zrangeOf scores), ks)
  | some _ => (.error wrongType, ks)

def zadd (key : Str) (score : Int) (member : Str) : Script Unit := fun ks =>
  match ks.find key with
  | none =>
    (.ok (), ks.put key
      (.zset ((∅ : Assoc Str Int).put member score)))
  | some (.zset scores) =>
    (.ok (), ks.put key (.zset (scores.put member score)))
  | some _ => (.error wrongType, ks)

/-- A sorted set without members is not kept. -/
def zrem (key member : Str) : Script Unit := fun ks =>
  match ks.find key with
  | none => (.ok (), ks)
  | some (.zset scores) =>
    if (scores.del member).bindings = [] then
      (.ok (), Assoc.del ks key)
    else
      (.ok (), ks.put key (.zset (scores.del member)))
  | some _ => (.error wrongType, ks)

/-!
# Reading a keyspace

A key without a value is an empty list, an empty sorted set and an empty set.
-/

def listAt (ks : Keyspace) (key : Str) : List Str :=
  match ks.find key with
  | some (.list elements) => elements
  | _ => []

def scoresAt (ks : Keyspace) (key : Str) : Assoc Str Int :=
  match ks.find key with
  | some (.zset scores) => scores
  | _ => ∅

def setAt (ks : Keyspace) (key : Str) : List Str :=
  match ks.find key with
  | some (.set members) => members
  | _ => []

/-- A member of the sorted set under a key. -/
def Scored (ks : Keyspace) (key member : Str) : Prop :=
  exists score, (scoresAt ks key).find member = some score

/-- What a key may hold. -/
inductive Kind where
  | string
  | list
  | zset
  | hash
  | set
deriving DecidableEq

def RedisValue.kind : RedisValue -> Kind
  | string _ => .string
  | list _ => .list
  | zset _ => .zset
  | hash _ => .hash
  | set _ => .set

/-- The key has no value of another kind. -/
def KindAt (ks : Keyspace) (key : Str) (kind : Kind) : Prop :=
  forall v, ks.find key = some v -> v.kind = kind

/-- Only the value of one key differs. -/
def OnlyAt (key : Str) (ks ks' : Keyspace) : Prop :=
  forall k, k ≠ key -> ks'.find k = ks.find k

theorem onlyAt_refl (key : Str) (ks : Keyspace) : OnlyAt key ks ks :=
  fun _ _ => rfl

theorem onlyAt_put (ks : Keyspace) (key : Str) (v : RedisValue) :
    OnlyAt key ks (ks.put key v) :=
  fun _ hk => find_put_ne ks v hk

theorem onlyAt_del (ks : Keyspace) (key : Str) :
    OnlyAt key ks (Assoc.del ks key) :=
  fun _ hk => Assoc.find_del_ne ks hk

theorem onlyAt_putList (ks : Keyspace) (key : Str) (elements : List Str) :
    OnlyAt key ks (putList ks key elements) := by
  cases elements with
  | nil => exact onlyAt_del ks key
  | cons e rest => exact onlyAt_put ks key _

variable {key : Str}

theorem kindAt_put {ks : Keyspace} {v : RedisValue} {kind : Kind}
    (h : v.kind = kind) : KindAt (ks.put key v) key kind := by
  intro w hw
  rw [find_put_self] at hw
  cases hw
  exact h

theorem kindAt_of_find_none {ks : Keyspace} {kind : Kind}
    (h : ks.find key = none) : KindAt ks key kind := by
  intro v hv
  rw [h] at hv
  cases hv

theorem kindAt_putList (ks : Keyspace) (key : Str) (elements : List Str) :
    KindAt (putList ks key elements) key .list := by
  cases elements with
  | nil => exact kindAt_of_find_none (Assoc.find_del_self ks key)
  | cons e rest => exact kindAt_put rfl

@[simp] theorem listAt_putList (ks : Keyspace) (key : Str)
    (elements : List Str) : listAt (putList ks key elements) key = elements := by
  cases elements with
  | nil =>
    rw [listAt, putList, Assoc.find_del_self]
  | cons e rest =>
    rw [listAt, putList, Assoc.find_put_self]
    intro h
    cases h

theorem listAt_congr
    (h : ks'.find key = ks.find key) : listAt ks' key = listAt ks key := by
  rw [listAt, listAt, h]

theorem scoresAt_congr
    (h : ks'.find key = ks.find key) : scoresAt ks' key = scoresAt ks key := by
  rw [scoresAt, scoresAt, h]

theorem mem_zrangeOf {scores : Assoc Str Int} {member : Str} :
    member ∈ zrangeOf scores <-> exists score, scores.find member = some score := by
  rw [zrangeOf, List.mem_map]
  constructor
  · intro h
    rcases h with ⟨⟨m, score⟩, hmem, rfl⟩
    exact ⟨score, mem_bindings.mp (List.mem_mergeSort.mp hmem)⟩
  · intro h
    rcases h with ⟨score, hfind⟩
    exact ⟨(member, score),
      List.mem_mergeSort.mpr (mem_bindings.mpr hfind), rfl⟩

theorem zrangeOf_empty : zrangeOf ∅ = [] := by
  rw [zrangeOf, show bindings (∅ : Assoc Str Int) = [] from rfl,
    List.mergeSort_nil, List.map_nil]

theorem nodup_zrangeOf (scores : Assoc Str Int) : (zrangeOf scores).Nodup :=
  ((List.mergeSort_perm scores.bindings scoreLe).map Prod.fst).nodup_iff.mpr
    scores.nodup_bindings_keys

/-!
# What a command does

A command on a key of its kind succeeds and changes at most this key.
-/

section Commands

variable {ks : Keyspace} {key : Str}

theorem sismember_eq (h : KindAt ks key .set) (member : Str) :
    sismember key member ks =
      (.ok (decide (member ∈ setAt ks key)), ks) := by
  rw [sismember, setAt]
  cases hfind : ks.find key with
  | none => simp
  | some v =>
    have hkind := h v hfind
    cases v with
    | set members => rfl
    | _ => cases hkind

theorem get_eq (h : KindAt ks key .string) :
    (ks.find key = none ∧ get key ks = (.ok none, ks)) ∨
      exists s, ks.find key = some (.string s) ∧
        get key ks = (.ok (some s), ks) := by
  rw [get]
  cases hfind : ks.find key with
  | none => exact .inl ⟨rfl, rfl⟩
  | some v =>
    have hkind := h v hfind
    cases v with
    | string s => exact .inr ⟨s, rfl, rfl⟩
    | _ => cases hkind

theorem hset_spec (h : KindAt ks key .hash) (field value : Str) :
    exists ks', hset key field value ks = (.ok (), ks') ∧
      OnlyAt key ks ks' ∧ KindAt ks' key .hash := by
  rw [hset]
  cases hfind : ks.find key with
  | none => exact ⟨_, rfl, onlyAt_put ks key _, kindAt_put rfl⟩
  | some v =>
    have hkind := h v hfind
    cases v with
    | hash fields => exact ⟨_, rfl, onlyAt_put ks key _, kindAt_put rfl⟩
    | _ => cases hkind

theorem sadd_spec (h : KindAt ks key .set) (member : Str) :
    exists n ks', sadd key member ks = (.ok n, ks') ∧
      OnlyAt key ks ks' ∧ KindAt ks' key .set := by
  rw [sadd]
  cases hfind : ks.find key with
  | none => exact ⟨_, _, rfl, onlyAt_put ks key _, kindAt_put rfl⟩
  | some v =>
    have hkind := h v hfind
    cases v with
    | set members =>
      by_cases hmem : member ∈ members
      · simp only [if_pos hmem]
        exact ⟨_, _, rfl, onlyAt_refl key ks, h⟩
      · simp only [if_neg hmem]
        exact ⟨_, _, rfl, onlyAt_put ks key _, kindAt_put rfl⟩
    | _ => cases hkind

theorem smembers_eq (h : KindAt ks key .set) :
    smembers key ks = (.ok (setAt ks key), ks) := by
  rw [smembers, setAt]
  cases hfind : ks.find key with
  | none => rfl
  | some v =>
    have hkind := h v hfind
    cases v with
    | set members => rfl
    | _ => cases hkind

theorem onlyAt_putSet (ks : Keyspace) (key : Str) (members : List Str) :
    OnlyAt key ks (putSet ks key members) := by
  cases members with
  | nil => exact onlyAt_del ks key
  | cons m rest => exact onlyAt_put ks key _

theorem kindAt_putSet (ks : Keyspace) (key : Str) (members : List Str) :
    KindAt (putSet ks key members) key .set := by
  cases members with
  | nil => exact kindAt_of_find_none (find_del_self ks key)
  | cons m rest => exact kindAt_put rfl

@[simp] theorem setAt_putSet (ks : Keyspace) (key : Str)
    (members : List Str) : setAt (putSet ks key members) key = members := by
  cases members with
  | nil => rw [setAt, putSet, find_del_self]
  | cons m rest =>
    rw [setAt, putSet, find_put_self]
    intro h
    cases h

theorem srem_spec (h : KindAt ks key .set) (member : Str) :
    exists ks', srem key member ks = (.ok (), ks') ∧
      OnlyAt key ks ks' ∧ KindAt ks' key .set ∧
      forall m, m ∈ setAt ks' key <-> (m ≠ member ∧ m ∈ setAt ks key) := by
  rw [srem]
  cases hfind : ks.find key with
  | none =>
    have hset : setAt ks key = [] := by rw [setAt, hfind]
    exact ⟨ks, rfl, onlyAt_refl key ks, h, by simp [hset]⟩
  | some v =>
    have hkind := h v hfind
    cases v with
    | set members =>
      have hset : setAt ks key = members := by rw [setAt, hfind]
      refine ⟨_, rfl, onlyAt_putSet ks key _, kindAt_putSet ks key _, ?_⟩
      intro m
      rw [setAt_putSet, hset, List.mem_filter, bne_iff_ne]
      exact and_comm
    | _ => cases hkind

section

variable (h : KindAt ks key .list)

include h

theorem find_list : ks.find key = none ∨
    exists elements, ks.find key = some (.list elements) := by
  cases hfind : ks.find key with
  | none => exact .inl rfl
  | some v =>
    have hkind := h v hfind
    cases v with
    | list elements => exact .inr ⟨elements, rfl⟩
    | _ => cases hkind

theorem lrange_eq : lrange key ks = (.ok (listAt ks key), ks) := by
  rw [lrange, listAt]
  rcases find_list h with hfind | ⟨elements, hfind⟩
  · rw [hfind]
  · rw [hfind]

theorem rpush_eq (element : Str) : rpush key element ks =
      (.ok (), putList ks key (listAt ks key ++ [element])) := by
  rw [rpush, listAt]
  rcases find_list h with hfind | ⟨elements, hfind⟩
  · rw [hfind]
    rfl
  · rw [hfind]

theorem lpush_eq (element : Str) : lpush key element ks =
      (.ok (), putList ks key (element :: listAt ks key)) := by
  rw [lpush, listAt]
  rcases find_list h with hfind | ⟨elements, hfind⟩
  · rw [hfind]
  · rw [hfind]

theorem lpop_eq : lpop key ks =
      match listAt ks key with
      | [] => (.ok none, ks)
      | element :: rest => (.ok (some element), putList ks key rest) := by
  rw [lpop, listAt]
  rcases find_list h with hfind | ⟨elements, hfind⟩
  · rw [hfind]
  · rw [hfind]
    cases elements <;> rfl

end

theorem zrange_eq (h : KindAt ks key .zset) :
    zrange key ks = (Except.ok (zrangeOf (scoresAt ks key)), ks) := by
  rw [zrange, scoresAt]
  cases hfind : ks.find key with
  | none =>
    show (Except.ok [], ks) = (Except.ok (zrangeOf ∅), ks)
    rw [zrangeOf_empty]
  | some v =>
    have hkind := h v hfind
    cases v with
    | zset scores => rfl
    | _ => cases hkind

theorem zadd_spec (h : KindAt ks key .zset) (score : Int) (member : Str) :
    exists ks', zadd key score member ks = (.ok (), ks') ∧
      OnlyAt key ks ks' ∧ KindAt ks' key .zset ∧
      forall m, Scored ks' key m <-> (m = member ∨ Scored ks key m) := by
  have hput : forall (scores : Assoc Str Int) (m : Str),
      Scored (ks.put key (.zset (scores.put member score))) key m <->
        (m = member ∨ exists n, scores.find m = some n) := by
    intro scores m
    rw [Scored, scoresAt, find_put_self]
    show (exists n, (scores.put member score).find m = some n) <-> _
    rw [find_put]
    by_cases hm : m = member
    · simp [hm]
    · simp [hm]
  rw [zadd]
  cases hfind : ks.find key with
  | none =>
    refine ⟨_, rfl, onlyAt_put ks key _, kindAt_put rfl, ?_⟩
    intro m
    rw [hput, Scored, scoresAt, hfind]
  | some v =>
    have hkind := h v hfind
    cases v with
    | zset scores =>
      refine ⟨_, rfl, onlyAt_put ks key _, kindAt_put rfl, ?_⟩
      intro m
      rw [hput, Scored, scoresAt, hfind]
    | _ => cases hkind

theorem zrem_spec (h : KindAt ks key .zset) (member : Str) :
    exists ks', zrem key member ks = (.ok (), ks') ∧
      OnlyAt key ks ks' ∧ KindAt ks' key .zset ∧
      forall m, Scored ks' key m <-> (m ≠ member ∧ Scored ks key m) := by
  rw [zrem]
  cases hfind : ks.find key with
  | none =>
    refine ⟨ks, rfl, onlyAt_refl key ks, h, ?_⟩
    intro m
    simp [Scored, scoresAt, hfind]
  | some v =>
    have hkind := h v hfind
    cases v with
    | zset scores =>
      have hrest : forall m, (exists n, (scores.del member).find m = some n)
          <-> (m ≠ member ∧ Scored ks key m) := by
        intro m
        rw [Scored, scoresAt, hfind, Assoc.find_del]
        by_cases hm : m = member
        · simp [hm]
        · simp [hm]
      by_cases hnil : (scores.del member).bindings = []
      · simp only [if_pos hnil]
        refine ⟨_, rfl, onlyAt_del ks key,
          kindAt_of_find_none (Assoc.find_del_self ks key), ?_⟩
        intro m
        rw [← hrest m, Scored, scoresAt, Assoc.find_del_self]
        constructor
        · intro hm
          rcases hm with ⟨n, hn⟩
          rw [Assoc.find_empty] at hn
          cases hn
        · intro hm
          rcases hm with ⟨n, hn⟩
          have hmem := Assoc.mem_bindings.mpr hn
          rw [hnil] at hmem
          cases hmem
      · simp only [if_neg hnil]
        refine ⟨_, rfl, onlyAt_put ks key _, kindAt_put rfl, ?_⟩
        intro m
        rw [← hrest m, Scored, scoresAt, Assoc.find_put_self]
    | _ => cases hkind

end Commands

end Redis
end OpenViking
