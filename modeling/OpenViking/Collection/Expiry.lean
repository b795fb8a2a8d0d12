import OpenViking.Collection.FollowsStore

/-!
# Expiry

What a caller knows of a key is its last write that no deletion followed, and
when that write expires.  The expiry table has one entry for each time, so it
keeps up with the writes as long as no two keys expire at one time and no
write without a lifetime touches a key that the table still names.
-/

namespace OpenViking
namespace Collection

open Paths Assoc Store List
open OpenViking.Vector

variable {raw key term value posting : Type}

/-- What a call does to the store. -/
inductive Effect (term value : Type) where
  | write (rows : List (CandidateData term value)) (ttl : Int)
  | delete (labels : List Label)
  | expire
  | nothing

/-- The time at which a write expires. -/
def expiryOf (ttl : Int) (now : Nat) : Option Nat :=
  if 0 < ttl then some (now + ttl.toNat * 1000000000) else none

/-- The last write of every key that was not deleted since, by the time at
which it expires. -/
abbrev LastWrites : Type :=
  Label -> Option (Option Nat)

namespace Effect

def store (s : Store term value) (clock : Clock) :
    Effect term value -> Store term value
  | .write rows ttl =>
    s.putRows ttl clock.base (s.upsertDeltas rows)
      (withExpiry ttl clock.now rows)
  | .delete labels => (s.deleteData labels true clock.base).2
  | .expire => (s.expireData clock.now clock.base).2
  | .nothing => s

def lastWrites (w : LastWrites) (clock : Clock) :
    Effect term value -> LastWrites
  | .write rows ttl => fun label =>
    if label ∈ rows.map CandidateData.label then
      some (expiryOf ttl clock.now)
    else w label
  | .delete labels => fun label => if label ∈ labels then none else w label
  | .expire => w
  | .nothing => w

/-- A batch with a lifetime writes one key, and its expiry is a time of its
own; a batch without one writes no key that the expiry table names; no row
expires in the very nanosecond of a sweep. -/
def Sound (s : Store term value) (clock : Clock) :
    Effect term value -> Prop
  | .write rows ttl =>
    match expiryOf ttl clock.now with
    | some time => Nanos time ∧
        (forall a, a ∈ rows -> forall b, b ∈ rows -> a.label = b.label) ∧
        forall label, s.ttl.find (decimal time) = some label ->
          forall a, a ∈ rows -> a.label = label
    | none => forall time label, s.ttl.find time = some label ->
        label ∉ rows.map CandidateData.label
  | .expire => Nanos clock.now ∧ forall label data,
      s.cands.find label = some data -> data.expireNsTs ≠ clock.now
  | .delete _ => True
  | .nothing => True

end Effect

/-!
# The effect of a call
-/

namespace LocalCollection

/-- The rows of a call, unless one of them does not serialise. -/
def writeEffect (clock : Clock)
    (written : Except (CallError key)
      (List (CandidateData term value) × Int)) : Effect term value :=
  match written with
  | .error _ => .nothing
  | .ok (rows, ttl) =>
    match (withExpiry ttl clock.now rows).findSome?
      CandidateData.serializeError with
    | some _ => .nothing
    | none => .write rows ttl

variable (cfg : CollectionConfig raw key term value posting)

def effect
    (c : LocalCollection term value posting) :
    Call raw key -> Effect term value
  | .upsertData rawDataList ttl clock =>
    writeEffect clock (c.written cfg (.upsertData rawDataList ttl clock))
  | .updateData rawDataList clock =>
    writeEffect clock (c.written cfg (.updateData rawDataList clock))
  | .deleteData primaryKeys _ => .delete (primaryKeys.map cfg.labelOf)
  | .expireTimeoutData _ => .expire

variable [DecidableEq posting]

private theorem afterWrite_store
    (c : LocalCollection term value posting) (clock : Clock)
    (written : Except (CallError key)
      (List (CandidateData term value) × Int)) :
    (match written.bind fun w => c.writeRows cfg w.1 w.2 clock with
      | .error _ => c
      | .ok c => c).store =
      (writeEffect clock written).store c.store clock := by
  cases written with
  | error e => rfl
  | ok w =>
    show (match c.writeRows cfg w.1 w.2 clock with
      | .error _ => c
      | .ok c => c).store = _
    rw [writeRows_eq, writeEffect]
    cases (withExpiry w.2 clock.now w.1).findSome?
      CandidateData.serializeError with
    | some e => rfl
    | none => rfl

theorem step_store (c : LocalCollection term value posting) (call : Call raw key) :
    (c.step cfg call).store =
      (c.effect cfg call).store c.store call.clock := by
  cases call with
  | upsertData rawDataList ttl clock => exact afterWrite_store cfg c clock _
  | updateData rawDataList clock => exact afterWrite_store cfg c clock _
  | deleteData primaryKeys clock => rfl
  | expireTimeoutData clock => rfl

omit [DecidableEq posting] in
theorem expireNsTs_of_effect {cfg : CollectionConfig raw key term value posting}
    {c : LocalCollection term value posting} {call : Call raw key}
    {rows : List (CandidateData term value)} {ttl : Int}
    (h : c.effect cfg call = .write rows ttl) :
    forall data, data ∈ rows -> data.expireNsTs = 0 := by
  have hmapped : forall (rawDataList : List raw) (ttl' : Int),
      (cfg.rows rawDataList).map (fun rows => (rows, ttl')) = .ok (rows, ttl) ->
        forall data, data ∈ rows -> data.expireNsTs = 0 := by
    intro rawDataList ttl' hmap data hdata
    rw [CollectionConfig.rows] at hmap
    split at hmap
    case h_1 => cases hmap
    case h_2 dataList hlist =>
      cases hmap
      rcases mem_map.mp hdata with ⟨d, _, heq⟩
      rw [← heq]
      rfl
  have hwritten : forall clock,
      writeEffect clock (c.written cfg call) = .write rows ttl ->
        c.written cfg call = .ok (rows, ttl) := by
    intro clock hwrite
    unfold writeEffect at hwrite
    split at hwrite
    case h_1 => cases hwrite
    case h_2 written ttl' hw =>
      split at hwrite
      case h_1 => cases hwrite
      case h_2 =>
        cases hwrite
        exact hw
  cases call with
  | upsertData rawDataList ttl' clock =>
    exact hmapped rawDataList ttl' (hwritten clock h)
  | updateData rawDataList clock =>
    have hw := hwritten clock h
    rw [written] at hw
    split at hw
    case h_1 => cases hw
    case h_2 merged hm => exact hmapped merged 0 hw
  | deleteData primaryKeys clock => cases h
  | expireTimeoutData clock => cases h

def lastWrites (cfg : CollectionConfig raw key term value posting)
    (c : LocalCollection term value posting) (w : LastWrites) :
    List (Call raw key) -> LastWrites
  | [] => w
  | call :: rest =>
    lastWrites cfg (c.step cfg call)
      ((c.effect cfg call).lastWrites w call.clock) rest

/-- Every call of a session is sound in the state it meets. -/
def SoundCalls (cfg : CollectionConfig raw key term value posting)
    (c : LocalCollection term value posting) : List (Call raw key) -> Prop
  | [] => True
  | call :: rest =>
    (c.effect cfg call).Sound c.store call.clock ∧
      SoundCalls cfg (c.step cfg call) rest

end LocalCollection

/-!
# The invariant
-/

/-- The store and its expiry table know the last writes; `swept` is the time
of the last sweep. -/
structure Tracks (s : Store term value) (w : LastWrites) (swept : Nat) :
    Prop where
  labelled : s.Labelled
  stored : forall label data, s.cands.find label = some data ->
    w label = some (if data.expireNsTs = 0 then none else some data.expireNsTs)
  gone : forall label, s.cands.find label = none -> forall last,
    w label = some last -> exists time, last = some time ∧ time ≤ swept
  entered : forall label data, s.cands.find label = some data ->
    data.expireNsTs ≠ 0 -> Nanos data.expireNsTs ∧
      s.ttl.find (decimal data.expireNsTs) = some label
  named : forall time label, s.ttl.find time = some label ->
    forall data, s.cands.find label = some data -> data.expireNsTs ≠ 0

variable {s : Store term value} {w : LastWrites} {swept : Nat} {clock : Clock}

theorem Tracks.later {swept' : Nat} (h : Tracks s w swept)
    (hle : swept ≤ swept') : Tracks s w swept' :=
  { h with
    gone := by
      intro label hnone last hlast
      rcases h.gone label hnone last hlast with ⟨time, heq, htime⟩
      exact ⟨time, heq, Nat.le_trans htime hle⟩ }

/-!
# Deletion
-/

theorem Tracks.delete (h : Tracks s w swept) (labels : List Label) :
    Tracks ((Effect.delete labels).store s clock)
      ((Effect.delete labels : Effect term value).lastWrites w clock) swept := by
  have hfind : forall label,
      ((Effect.delete labels).store s clock).cands.find label =
        if label ∈ labels then none else s.cands.find label :=
    find_delAll s.cands labels
  have hstored : forall label data,
      ((Effect.delete labels).store s clock).cands.find label = some data ->
        label ∉ labels ∧ s.cands.find label = some data := by
    intro label data hdata
    rw [hfind] at hdata
    by_cases hmem : label ∈ labels
    · rw [if_pos hmem] at hdata
      cases hdata
    · rw [if_neg hmem] at hdata
      exact ⟨hmem, hdata⟩
  constructor
  · exact labelled_of_delAll h.labelled rfl
  · intro label data hdata
    rcases hstored label data hdata with ⟨hmem, hold⟩
    show (if label ∈ labels then none else w label) = _
    rw [if_neg hmem]
    exact h.stored label data hold
  · intro label hnone last hlast
    change (if label ∈ labels then none else w label) = some last at hlast
    by_cases hmem : label ∈ labels
    · rw [if_pos hmem] at hlast
      cases hlast
    · rw [if_neg hmem] at hlast
      rw [hfind, if_neg hmem] at hnone
      exact h.gone label hnone last hlast
  · intro label data hdata
    exact h.entered label data (hstored label data hdata).2
  · intro time label htime data hdata
    exact h.named time label htime data (hstored label data hdata).2

/-!
# Writes
-/

/-- A row that a batch wrote, or one that it left alone. -/
def Written (s : Store term value) (rows : List (CandidateData term value))
    (time : Nat) (label : Label) (data : CandidateData term value) : Prop :=
  (label ∈ rows.map CandidateData.label ∧ data.expireNsTs = time) ∨
    (label ∉ rows.map CandidateData.label ∧ s.cands.find label = some data)

variable {rows : List (CandidateData term value)}

variable {time : Nat} {ttl : Int}

theorem Tracks.write (h : Tracks s w swept)
    (hwritten : forall data, data ∈ withExpiry ttl clock.now rows ->
      data.expireNsTs = time)
    (hexpiry : expiryOf ttl clock.now = if time = 0 then none else some time)
    (hcase : forall label data, Written s rows time label data ->
      (data.expireNsTs ≠ 0 -> Nanos data.expireNsTs ∧
        ((Effect.write rows ttl).store s clock).ttl.find
          (decimal data.expireNsTs) = some label) ∧
      forall key,
        ((Effect.write rows ttl).store s clock).ttl.find key = some label ->
          data.expireNsTs ≠ 0) :
    Tracks ((Effect.write rows ttl).store s clock)
      ((Effect.write rows ttl).lastWrites w clock) swept := by
  have hlabels : (withExpiry ttl clock.now rows).map
      CandidateData.label = rows.map CandidateData.label := by
    rcases withExpiry_eq_map ttl clock.now rows with heq | ⟨_, heq⟩
    · rw [heq]
    · rw [heq, map_map]
      rfl
  have hfind : forall label,
      ((Effect.write rows ttl).store s clock).cands.find label =
        (lastRow (withExpiry ttl clock.now rows) label).or
          (s.cands.find label) := by
    intro label
    show (s.putRows _ _ _ _).cands.find label = _
    rw [find_putRows]
  have hlast : forall label, (Effect.write rows ttl).lastWrites w clock label =
      if label ∈ rows.map CandidateData.label then
        some (if time = 0 then none else some time)
      else w label := by
    intro label
    rw [← hexpiry]
    rfl
  have hcases : forall label data,
      ((Effect.write rows ttl).store s clock).cands.find label = some data ->
        Written s rows time label data := by
    intro label data hdata
    rw [hfind] at hdata
    rw [Written, ← hlabels]
    cases hrow : lastRow (withExpiry ttl clock.now rows) label with
    | none =>
      rw [hrow] at hdata
      exact .inr ⟨lastRow_eq_none_iff.mp hrow, hdata⟩
    | some last =>
      rw [hrow] at hdata
      cases hdata
      have hmem := lastRow_mem hrow
      rw [← hmem.2]
      exact .inl ⟨mem_map_of_mem hmem.1, hwritten data hmem.1⟩
  constructor
  · exact labelled_putRows h.labelled ttl clock.base _ _
  · intro label data hdata
    rw [hlast]
    rcases hcases label data hdata with ⟨hmem, ht⟩ | ⟨hmem, hold⟩
    · rw [if_pos hmem, ht]
    · rw [if_neg hmem]
      exact h.stored label data hold
  · intro label hnone last hwrite
    rw [hfind] at hnone
    rcases Option.or_eq_none_iff.mp hnone with ⟨hrow, hnone⟩
    rw [hlast, ← hlabels, if_neg (lastRow_eq_none_iff.mp hrow)] at hwrite
    exact h.gone label hnone last hwrite
  · exact fun label data hdata =>
      (hcase label data (hcases label data hdata)).1
  · exact fun key label hkey data hdata =>
      (hcase label data (hcases label data hdata)).2 key hkey

/-- A batch without a lifetime. -/
theorem Tracks.writeForever (h : Tracks s w swept) (httl : ¬0 < ttl)
    (hzero : forall data, data ∈ rows -> data.expireNsTs = 0)
    (hsound : forall time label, s.ttl.find time = some label ->
      label ∉ rows.map CandidateData.label) :
    Tracks ((Effect.write rows ttl).store s clock)
      ((Effect.write rows ttl).lastWrites w clock) swept := by
  have hwritten : forall data,
      data ∈ withExpiry ttl clock.now rows -> data.expireNsTs = 0 := by
    rw [withExpiry, if_neg httl]
    exact hzero
  have httls : ((Effect.write rows ttl).store s clock).ttl = s.ttl := if_neg httl
  apply h.write hwritten (if_neg httl)
  intro label data hcase
  rw [httls]
  rcases hcase with ⟨hmem, hz⟩ | ⟨_, hold⟩
  · exact ⟨fun hne => absurd hz hne,
      fun key hkey => absurd hmem (hsound key label hkey)⟩
  · exact ⟨h.entered label data hold,
      fun key hkey => h.named key label hkey data hold⟩

private theorem expiryOf_eq_some {now : Nat} (h : expiryOf ttl now = some time) :
    0 < ttl ∧ (forall rows : List (CandidateData term value),
      withExpiry ttl now rows = rows.map (expiringAt time)) := by
  rw [expiryOf] at h
  by_cases httl : 0 < ttl
  · rw [if_pos httl] at h
    cases h
    refine ⟨httl, fun rows => ?_⟩
    rw [withExpiry, if_pos httl]
  · rw [if_neg httl] at h
    cases h

private theorem nanos_ne_zero (h : Nanos time) : time ≠ 0 := by
  intro hzero
  rw [hzero] at h
  exact absurd h.1 (by decide)

/-- The entries that a batch makes in the expiry table. -/
private def entries (time : Nat) (rows : List (CandidateData term value)) :
    List (Str × Label) :=
  rows.map fun data => (decimal time, data.label)

/-- A batch with a lifetime. -/
theorem Tracks.writeExpiring (h : Tracks s w swept)
    (htime : expiryOf ttl clock.now = some time) (hnanos : Nanos time)
    (hsame : forall a, a ∈ rows -> forall b, b ∈ rows -> a.label = b.label)
    (hfree : forall label, s.ttl.find (decimal time) = some label ->
      forall a, a ∈ rows -> a.label = label) :
    Tracks ((Effect.write rows ttl).store s clock)
      ((Effect.write rows ttl).lastWrites w clock) swept := by
  rcases expiryOf_eq_some htime with ⟨httl, hexpiry⟩
  have httls : ((Effect.write rows ttl).store s clock).ttl =
      s.ttl.putAll (entries time rows) := by
    show (if 0 < ttl then s.ttl.putAll ((withExpiry ttl clock.now
      rows).map _) else s.ttl) = _
    rw [if_pos httl, hexpiry, map_map]
    rfl
  have hentry : forall label, label ∈ rows.map CandidateData.label ->
      (s.ttl.putAll (entries time rows)).find (decimal time) = some label := by
    intro label hmem
    rcases mem_map.mp hmem with ⟨data, hdata, hlabel⟩
    have hkey : decimal time ∈ (entries time rows).map Prod.fst :=
      mem_map.mpr ⟨_, mem_map_of_mem hdata, rfl⟩
    rcases exists_find_putAll s.ttl hkey with ⟨v, hv, hput⟩
    rcases mem_map.mp hv with ⟨other, hother, heq⟩
    cases heq
    rw [hput, ← hlabel, hsame data hdata other hother]
  have hkept : forall key, key ≠ decimal time ->
      (s.ttl.putAll (entries time rows)).find key = s.ttl.find key := by
    intro key hne
    apply find_putAll_of_notMem
    intro hmem
    rcases mem_map.mp hmem with ⟨b, hb, hkey⟩
    rcases mem_map.mp hb with ⟨data, _, heq⟩
    rw [← hkey, ← heq] at hne
    exact hne rfl
  have hwritten : forall data,
      data ∈ withExpiry ttl clock.now rows -> data.expireNsTs = time := by
    intro data hdata
    rw [hexpiry] at hdata
    rcases mem_map.mp hdata with ⟨row, _, rfl⟩
    rfl
  have hzero := nanos_ne_zero hnanos
  apply h.write hwritten (htime.trans (if_neg hzero).symm)
  intro label data hcase
  rw [httls]
  rcases hcase with ⟨hmem, ht⟩ | ⟨hmem, hold⟩
  · rw [ht]
    exact ⟨fun _ => ⟨hnanos, hentry label hmem⟩, fun _ _ => hzero⟩
  constructor
  · intro hne
    rcases h.entered label data hold hne with ⟨hn, hent⟩
    refine ⟨hn, ?_⟩
    by_cases hkey : decimal data.expireNsTs = decimal time
    · rw [hkey] at hent ⊢
      cases rows with
      | nil => exact hent
      | cons first rest =>
        have hlabel := hfree label hent first mem_cons_self
        exact absurd (mem_map.mpr ⟨first, mem_cons_self, hlabel⟩) hmem
    · rw [hkept _ hkey]
      exact hent
  · intro key hkey
    by_cases heq : key = decimal time
    · cases rows with
      | nil => exact h.named key label hkey data hold
      | cons first rest =>
        rw [heq, hentry first.label
          (mem_map_of_mem mem_cons_self)] at hkey
        cases hkey
        exact absurd (mem_map_of_mem mem_cons_self) hmem
    · rw [hkept key heq] at hkey
      exact h.named key label hkey data hold

/-!
# A sweep
-/

/-- The rows that a sweep deletes. -/
def sweptRows (s : Store term value) (now : Nat) :
    List (CandidateData term value) :=
  s.expiredCandsData now ((beginToSeek s.ttl (decimal now)).map Prod.snd)

variable {data : CandidateData term value}

theorem mem_sweptRows {now : Nat} : data ∈ sweptRows s now <->
      exists time label, s.ttl.find time = some label ∧ time < decimal now ∧
        s.cands.find label = some data ∧ data.expireNsTs ≤ now := by
  rw [sweptRows, mem_expiredCandsData]
  constructor
  · intro h
    rcases h with ⟨label, hlabel, hfind, hle⟩
    rcases mem_map.mp hlabel with ⟨b, hb, heq⟩
    rcases mem_beginToSeek.mp hb with ⟨hentry, hlt⟩
    rw [heq] at hentry
    exact ⟨b.1, label, hentry, hlt, hfind, hle⟩
  · intro h
    rcases h with ⟨time, label, hentry, hlt, hfind, hle⟩
    refine ⟨label, ?_, hfind, hle⟩
    exact mem_map.mpr ⟨(time, label), mem_beginToSeek.mpr ⟨hentry, hlt⟩, rfl⟩

theorem Tracks.mem_sweptRows_iff (h : Tracks s w swept) {now : Nat}
    (hnow : Nanos now)
    (hne : forall label data, s.cands.find label = some data ->
      data.expireNsTs ≠ now) (data : CandidateData term value) :
    data ∈ sweptRows s now <->
      s.cands.find data.label = some data ∧ data.expireNsTs ≠ 0 ∧
        data.expireNsTs < now := by
  rw [mem_sweptRows]
  constructor
  · intro hswept
    rcases hswept with ⟨time, label, hentry, _, hfind, hle⟩
    have hlabel := h.labelled label data hfind
    rw [hlabel]
    exact ⟨hfind, h.named time label hentry data hfind,
      Nat.lt_of_le_of_ne hle (hne label data hfind)⟩
  · intro hover
    rcases hover with ⟨hfind, hzero, hlt⟩
    rcases h.entered data.label data hfind hzero with ⟨hnanos, hentry⟩
    exact ⟨decimal data.expireNsTs, data.label, hentry,
      (hnanos.decimal_lt_iff hnow).mpr hlt, hfind, Nat.le_of_lt hlt⟩

/-- A sweep removes a row exactly if it has a lifetime that is over. -/
theorem Tracks.find_expire (h : Tracks s w swept) (hnow : Nanos clock.now)
    (hne : forall label data, s.cands.find label = some data ->
      data.expireNsTs ≠ clock.now) {label : Label} :
    ((Effect.expire).store s clock).cands.find label = some data <->
      s.cands.find label = some data ∧
        (data.expireNsTs = 0 ∨ clock.now < data.expireNsTs) := by
  have hdel : ((Effect.expire).store s clock).cands.find label =
      if label ∈ (sweptRows s clock.now).map CandidateData.label then none
      else s.cands.find label := find_delAll ..
  have hmem := h.mem_sweptRows_iff hnow hne
  rw [hdel]
  constructor
  · intro hdata
    by_cases hswept : label ∈ (sweptRows s clock.now).map CandidateData.label
    · rw [if_pos hswept] at hdata
      cases hdata
    rw [if_neg hswept] at hdata
    refine ⟨hdata, ?_⟩
    have hlabel := h.labelled label data hdata
    have hnot : data ∉ sweptRows s clock.now := by
      intro hd
      rw [← hlabel] at hswept
      exact hswept (mem_map_of_mem hd)
    rw [hmem, hlabel] at hnot
    have hneq := hne label data hdata
    by_cases hzero : data.expireNsTs = 0
    · exact .inl hzero
    · right
      by_contra hge
      exact hnot ⟨hdata, hzero, by omega⟩
  · intro hdata
    rcases hdata with ⟨hfind, hkeep⟩
    rw [if_neg, hfind]
    intro hswept
    rcases mem_map.mp hswept with ⟨d, hd, hlabel⟩
    rcases (hmem d).mp hd with ⟨hdfind, hzero, hlt⟩
    rw [hlabel, hfind] at hdfind
    cases hdfind
    rcases hkeep with heq | hgt
    · exact hzero heq
    · omega

theorem Tracks.expire (h : Tracks s w swept) (hle : swept ≤ clock.now)
    (hnow : Nanos clock.now)
    (hne : forall label data, s.cands.find label = some data ->
      data.expireNsTs ≠ clock.now) :
    Tracks ((Effect.expire).store s clock)
      ((Effect.expire : Effect term value).lastWrites w clock)
      clock.now := by
  have hfind : forall label data,
      ((Effect.expire).store s clock).cands.find label = some data <->
        s.cands.find label = some data ∧
          (data.expireNsTs = 0 ∨ clock.now < data.expireNsTs) :=
    fun label data => h.find_expire hnow hne
  have httl : forall key label,
      ((Effect.expire).store s clock).ttl.find key = some label <->
        key ∉ (beginToSeek s.ttl (decimal clock.now)).map Prod.fst ∧
          s.ttl.find key = some label :=
    fun key label => find_delAll_eq_some
  constructor
  · exact labelled_of_delAll h.labelled rfl
  · intro label data hdata
    exact h.stored label data ((hfind label data).mp hdata).1
  · intro label hnone last hlast
    cases hold : s.cands.find label with
    | none => exact (h.later hle).gone label hold last hlast
    | some data =>
      have hgone : ¬(data.expireNsTs = 0 ∨ clock.now < data.expireNsTs) := by
        intro hkeep
        rw [(hfind label data).mpr ⟨hold, hkeep⟩] at hnone
        cases hnone
      have hwrite := h.stored label data hold
      change w label = some last at hlast
      rw [hlast, if_neg (fun hz => hgone (Or.inl hz))] at hwrite
      cases hwrite
      exact ⟨data.expireNsTs, rfl, by omega⟩
  · intro label data hdata hzero
    rcases (hfind label data).mp hdata with ⟨hold, hkeep⟩
    rcases h.entered label data hold hzero with ⟨hnanos, hentry⟩
    refine ⟨hnanos, ?_⟩
    apply (httl _ _).mpr
    refine ⟨?_, hentry⟩
    intro hmem
    rcases mem_map.mp hmem with ⟨b, hb, hkey⟩
    have hlt := (mem_beginToSeek.mp hb).2
    rw [hkey, hnanos.decimal_lt_iff hnow] at hlt
    rcases hkeep with heq | hgt
    · exact hzero heq
    · omega
  · intro key label hkey data hdata
    exact h.named key label ((httl key label).mp hkey).2 data
      ((hfind label data).mp hdata).1

/-!
# Sessions
-/

theorem Tracks.effect (h : Tracks s w swept) {e : Effect term value}
    (hsound : e.Sound s clock)
    (hzero : forall rows ttl, e = .write rows ttl ->
      forall data, data ∈ rows -> data.expireNsTs = 0)
    (hle : swept ≤ clock.now) :
    Tracks (e.store s clock) (e.lastWrites w clock) clock.now := by
  cases e with
  | write rows ttl =>
    cases hexpiry : expiryOf ttl clock.now with
    | some time =>
      rw [Effect.Sound, hexpiry] at hsound
      exact (h.writeExpiring hexpiry hsound.1 hsound.2.1 hsound.2.2).later hle
    | none =>
      rw [Effect.Sound, hexpiry] at hsound
      have httl : ¬0 < ttl := by
        intro hpos
        rw [expiryOf, if_pos hpos] at hexpiry
        cases hexpiry
      exact (h.writeForever httl (hzero rows ttl rfl) hsound).later hle
  | delete labels => exact (h.delete labels).later hle
  | expire => exact h.expire hle hsound.1 hsound.2
  | nothing => exact h.later hle

theorem tracks_empty : Tracks (empty : Store term value)
    (fun _ => none) 0 where
  labelled := nofun
  stored := nofun
  gone := nofun
  entered := nofun
  named := nofun

section Runs

variable [DecidableEq posting]
  {cfg : CollectionConfig raw key term value posting}

/-- The clock does not go back between two calls. -/
def InOrder (calls : List (Call raw key)) : Prop :=
  calls.Pairwise fun a b => a.clock.now ≤ b.clock.now

variable {c : LocalCollection term value posting} {calls : List (Call raw key)}

theorem tracks_run (h : Tracks c.store w swept) (hsound : c.SoundCalls cfg calls)
    (hmono : InOrder calls)
    (hfirst : forall call, call ∈ calls -> swept ≤ call.clock.now) :
    exists swept', Tracks (c.run cfg calls).store
        (c.lastWrites cfg w calls) swept' ∧
      forall time, swept ≤ time ->
        (forall call, call ∈ calls -> call.clock.now ≤ time) ->
          swept' ≤ time := by
  induction calls generalizing c w swept with
  | nil => exact ⟨swept, h, fun _ hle _ => hle⟩
  | cons call rest ih =>
    rcases pairwise_cons.mp hmono with ⟨hcall, hrest⟩
    have hstep := h.effect hsound.1
      (fun rows ttl heq => LocalCollection.expireNsTs_of_effect heq)
      (hfirst call mem_cons_self)
    rw [← LocalCollection.step_store] at hstep
    rcases ih hstep hsound.2 hrest hcall with ⟨swept', htracks, hle⟩
    refine ⟨swept', htracks, ?_⟩
    intro time _ hcalls
    apply hle time (hcalls call mem_cons_self)
    intro other hother
    exact hcalls other (mem_cons_of_mem _ hother)

theorem soundCalls_append {call : Call raw key} :
    c.SoundCalls cfg (calls ++ [call]) <->
      c.SoundCalls cfg calls ∧
        ((c.run cfg calls).effect cfg call).Sound (c.run cfg calls).store
          call.clock := by
  induction calls generalizing c with
  | nil => exact ⟨fun h => ⟨trivial, h.1⟩, fun h => ⟨h.2, trivial⟩⟩
  | cons first rest ih =>
    constructor
    · intro h
      rcases ih.mp h.2 with ⟨hrest, hcall⟩
      exact ⟨⟨h.1, hrest⟩, hcall⟩
    · intro h
      exact ⟨h.1.1, ih.mpr ⟨h.1.2, h.2⟩⟩

omit [DecidableEq posting] in
/-- What a sweep deletes goes to the delta table with its fields. -/
theorem delta_of_expire (hs : s.Labelled) {label : Label}
    {data : CandidateData term value}
    (hbefore : s.cands.find label = some data)
    (hafter : ((Effect.expire).store s clock).cands.find label = none) :
    deleteDelta label data.fields ∈
        (s.expireData clock.now clock.base).1 ∧
      exists key, ((Effect.expire).store s clock).delta.find key =
        some (deleteDelta label data.fields) := by
  have hlabel := hs label data hbefore
  have hswept : data ∈ sweptRows s clock.now := by
    by_contra hnot
    have hkept : ((Effect.expire).store s clock).cands.find label =
        some data := by
      apply find_delAll_eq_some.mpr
      refine ⟨?_, hbefore⟩
      intro hmem
      rcases mem_map.mp hmem with ⟨d, hd, heq⟩
      rcases mem_sweptRows.mp hd with ⟨_, label', _, _, hfind, _⟩
      rw [hs label' d hfind] at heq
      rw [heq, hbefore] at hfind
      cases hfind
      exact hnot hd
    rw [hkept] at hafter
    cases hafter
  have hmem : deleteDelta label data.fields ∈
      expiredDeltas (sweptRows s clock.now) := by
    rw [← hlabel]
    exact mem_map_of_mem (f := fun d : CandidateData term value =>
      deleteDelta d.label d.fields) hswept
  rcases getElem?_of_mem hmem with ⟨i, hi⟩
  exact ⟨hmem, decimal (clock.base + i), find_stamped s.delta clock.base hi⟩

/-- In a session of sound calls a sweep leaves exactly the keys whose last
write has no lifetime or one that is not over. -/
theorem sweep_deletes_expired
    (cfg : CollectionConfig raw key term value posting)
    (timestamp built : Nat) (calls : List (Call raw key)) (clock : Clock)
    (hmono : InOrder (calls ++ [.expireTimeoutData clock]))
    (hsound : (LocalCollection.createIndex cfg empty timestamp
      built).SoundCalls cfg (calls ++ [.expireTimeoutData clock])) :
    let start := LocalCollection.createIndex cfg empty timestamp built
    let before := (start.run cfg calls).store
    let after := ((start.run cfg calls).step cfg
      (.expireTimeoutData clock)).store
    forall label,
      ((after.cands.find label).isSome = true <->
        exists last, start.lastWrites cfg (fun _ => none) calls label =
            some last ∧ forall time, last = some time -> clock.now < time) ∧
      forall data, before.cands.find label = some data ->
        after.cands.find label = none -> deleteDelta label data.fields ∈
              (before.expireData clock.now clock.base).1 ∧
            exists key, after.delta.find key =
              some (deleteDelta label data.fields) := by
  intro start before after label
  rcases List.pairwise_append.mp hmono with ⟨hcalls, _, hlast⟩
  rcases soundCalls_append.mp hsound with ⟨hpast, hsweep⟩
  have hstart : Tracks start.store (fun _ => none) 0 := tracks_empty
  rcases tracks_run hstart hpast hcalls (fun call _ => Nat.zero_le _) with
    ⟨swept, htracks, hle⟩
  have hnow : swept ≤ clock.now := by
    apply hle clock.now (Nat.zero_le _)
    intro call hcall
    exact hlast call hcall (.expireTimeoutData clock) List.mem_cons_self
  have hafter : after = (Effect.expire).store before clock :=
    LocalCollection.step_store cfg _ _
  have hfind : forall data,
      ((Effect.expire).store before clock).cands.find label = some data <->
        before.cands.find label = some data ∧
          (data.expireNsTs = 0 ∨ clock.now < data.expireNsTs) :=
    fun data => htracks.find_expire hsweep.1 hsweep.2
  rw [hafter]
  constructor
  · constructor
    · intro hsome
      rcases Option.isSome_iff_exists.mp hsome with ⟨data, hdata⟩
      rcases (hfind data).mp hdata with ⟨hbefore, hkeep⟩
      refine ⟨_, htracks.stored label data hbefore, ?_⟩
      intro time htime
      by_cases hzero : data.expireNsTs = 0
      · rw [if_pos hzero] at htime
        cases htime
      · rw [if_neg hzero] at htime
        cases htime
        exact hkeep.resolve_left hzero
    · intro hwrite
      rcases hwrite with ⟨last, hlastWrite, hlater⟩
      cases hbefore : before.cands.find label with
      | none =>
        rcases htracks.gone label hbefore last hlastWrite with
          ⟨time, htime, hswept⟩
        have hlt := hlater time htime
        omega
      | some data =>
        have hstored := htracks.stored label data hbefore
        rw [hlastWrite] at hstored
        have hdata := (hfind data).mpr ⟨hbefore, by
          by_cases hzero : data.expireNsTs = 0
          · exact Or.inl hzero
          · rw [if_neg hzero] at hstored
            cases hstored
            exact Or.inr (hlater _ rfl)⟩
        rw [hdata]
        rfl
  · intro data hbefore hgone
    exact delta_of_expire htracks.labelled hbefore hgone

end Runs
/-- One key with a lifetime of a second, written again with another. -/
def renewedCalls : List (Call (Nat × Str) Nat) :=
  [.upsertData [(1, ['x'])] 1 ⟨1, 1000000000000000000, 1⟩,
    .upsertData [(1, ['y'])] 9 ⟨2, 1000000000500000000, 2⟩]

def sweepClock : Clock :=
  ⟨3, 1000000002000000000, 3⟩

theorem sweep_deletes_expired_renewed :
    InOrder (renewedCalls ++ [.expireTimeoutData sweepClock]) ∧
      (((tagCollection.run tagConfig renewedCalls).step tagConfig
        (.expireTimeoutData sweepClock)).store.cands.find 1).isSome =
          true := by
  have hmono : InOrder (renewedCalls ++ [.expireTimeoutData sweepClock]) := by
    simp [InOrder, renewedCalls, sweepClock, Call.clock]
  have hsound : tagCollection.SoundCalls tagConfig
      (renewedCalls ++ [.expireTimeoutData sweepClock]) := by
    have hrow : (tagCollection.run tagConfig renewedCalls).store.cands.bindings =
        [(1, ⟨1, [1], [], [], ['y'], 1000000009500000000⟩)] := by
      decide +kernel
    have hfree : (tagCollection.run tagConfig
        (renewedCalls.take 1)).store.ttl.find (decimal 1000000009500000000) =
          none := by
      decide +kernel
    refine ⟨⟨?_, ?_, ?_⟩, ⟨?_, ?_, ?_⟩, ⟨?_, ?_⟩, trivial⟩
    · exact ⟨by decide, by decide⟩
    · decide +kernel
    · nofun
    · exact ⟨by decide, by decide⟩
    · decide +kernel
    · intro label hentry
      change (tagCollection.run tagConfig (renewedCalls.take 1)).store.ttl.find
        (decimal 1000000009500000000) = some label at hentry
      rw [hfree] at hentry
      cases hentry
    · exact ⟨by decide, by decide⟩
    · intro label data hdata
      change (tagCollection.run tagConfig renewedCalls).store.cands.find label =
        some data at hdata
      have hmem := mem_bindings.mpr hdata
      rw [hrow, List.mem_singleton] at hmem
      cases hmem
      decide
  refine ⟨hmono, ?_⟩
  apply ((sweep_deletes_expired tagConfig 0 0 renewedCalls sweepClock hmono
    hsound) 1).1.mpr
  exact ⟨some 1000000009500000000, by decide +kernel, by decide +kernel⟩

/-- Two keys of a batch share one entry of the expiry table, so the sweep
misses the first of them. -/
theorem sweep_misses_batch :
    ¬((((tagCollection.run tagConfig
          [.upsertData [(1, ['x']), (2, ['y'])] 1
            ⟨1, 1000000000000000000, 1⟩]).step tagConfig
        (.expireTimeoutData sweepClock)).store.cands.find 1).isSome = true <->
      exists last, tagCollection.lastWrites tagConfig (fun _ => none)
          [.upsertData [(1, ['x']), (2, ['y'])] 1
            ⟨1, 1000000000000000000, 1⟩] 1 = some last ∧
        forall time, last = some time -> sweepClock.now < time) := by
  intro h
  have hkept : (((tagCollection.run tagConfig
        [.upsertData [(1, ['x']), (2, ['y'])] 1
          ⟨1, 1000000000000000000, 1⟩]).step tagConfig
      (.expireTimeoutData sweepClock)).store.cands.find 1).isSome = true := by
    decide +kernel
  rcases h.mp hkept with ⟨last, hlast, hlater⟩
  have hwrite : tagCollection.lastWrites tagConfig (fun _ => none)
      [.upsertData [(1, ['x']), (2, ['y'])] 1
        ⟨1, 1000000000000000000, 1⟩] 1 = some (some 1000000001000000000) := by
    decide +kernel
  rw [hwrite] at hlast
  cases hlast
  have hlt := hlater _ rfl
  revert hlt
  decide

end Collection
end OpenViking
