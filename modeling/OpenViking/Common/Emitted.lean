import Mathlib.Data.List.Basic

/-!
# Items until a failure

A producer emits items one after the other and may fail after some of them.  A
bounded collection takes the items until it is full and notices the failure
only when it still had room.
-/

namespace OpenViking

open List Prod

/-- The items before the first failure, and the failure. -/
structure Emitted (ε α : Type) where
  items : List α
  failure : Option ε

namespace Emitted

variable {ε α : Type}

def nothing : Emitted ε α :=
  ⟨[], none⟩

def one (a : α) : Emitted ε α :=
  ⟨[a], none⟩

def fail (e : ε) : Emitted ε α :=
  ⟨[], some e⟩

/-- The second producer runs when the first did not fail. -/
def andThen (x y : Emitted ε α) : Emitted ε α :=
  match x.failure with
  | some _ => x
  | none => ⟨x.items ++ y.items, y.failure⟩

/-- The producers of the elements, one after the other. -/
def each {β : Type} (f : β -> Emitted ε α) : List β -> Emitted ε α
  | [] => nothing
  | b :: rest => (f b).andThen (each f rest)

/-- All items, unless there is a failure. -/
def toExcept (x : Emitted ε α) : Except ε (List α) :=
  match x.failure with
  | some e => .error e
  | none => .ok x.items

variable {x : Emitted ε α}

variable {xs : List α}

theorem toExcept_eq_ok_iff : x.toExcept = .ok xs <-> x = ⟨xs, none⟩ := by
  cases x with
  | mk items failure =>
    cases failure with
    | none =>
      rw [toExcept]
      simp
    | some e =>
      rw [toExcept]
      simp

theorem andThen_of_ok (xs : List α) (y : Emitted ε α) :
    (⟨xs, none⟩ : Emitted ε α).andThen y = ⟨xs ++ y.items, y.failure⟩ :=
  rfl

variable {y : Emitted ε α}

theorem mem_items_andThen {x : Emitted ε α} {a : α}
    (h : a ∈ (x.andThen y).items) : a ∈ x.items ∨ a ∈ y.items := by
  rw [andThen] at h
  split at h
  · exact .inl h
  · exact mem_append.mp h

variable {β : Type}

variable {bs : List β} {f : β -> Emitted ε α}

theorem mem_items_each {a : α}
    (h : a ∈ (each f bs).items) : exists b, b ∈ bs ∧ a ∈ (f b).items := by
  induction bs with
  | nil => cases h
  | cons b rest ih =>
    rcases mem_items_andThen h with hfirst | hrest
    · exact ⟨b, mem_cons_self, hfirst⟩
    · rcases ih hrest with ⟨b', hmem, ha⟩
      exact ⟨b', mem_cons_of_mem _ hmem, ha⟩

theorem andThen_eq_ok {x : Emitted ε α} {zs : List α}
    (h : x.andThen y = ⟨zs, none⟩) :
    exists xs ys : List α,
      x = ⟨xs, none⟩ ∧ y = ⟨ys, none⟩ ∧ zs = xs ++ ys := by
  cases x with
  | mk items failure =>
    cases failure with
    | some e => cases h
    | none =>
      cases y with
      | mk items' failure' =>
        rw [andThen_of_ok] at h
        cases h
        exact ⟨items, items', rfl, rfl, rfl⟩

theorem nothing_andThen (y : Emitted ε α) : nothing.andThen y = y :=
  rfl

theorem andThen_assoc (x y z : Emitted ε α) :
    (x.andThen y).andThen z = x.andThen (y.andThen z) := by
  cases x with
  | mk items failure =>
    cases failure with
    | some e => rfl
    | none =>
      cases y with
      | mk items' failure' =>
        cases failure' with
        | some e => rfl
        | none =>
          show (⟨items ++ items' ++ z.items, z.failure⟩ : Emitted ε α) =
            ⟨items ++ (items' ++ z.items), z.failure⟩
          rw [append_assoc]

theorem andThen_of_failure (h : x.failure ≠ none)
    (y : Emitted ε α) : x.andThen y = x := by
  rw [andThen]
  cases hfailure : x.failure with
  | some e => rfl
  | none => exact absurd hfailure h

theorem each_append (f : β -> Emitted ε α) (bs cs : List β) :
    each f (bs ++ cs) = (each f bs).andThen (each f cs) := by
  induction bs with
  | nil => rfl
  | cons b rest ih => rw [cons_append, each, each, ih, andThen_assoc]

theorem each_singleton (f : β -> Emitted ε α) (b : β) : each f [b] = f b := by
  rw [each, each]
  cases f b with
  | mk items failure =>
    cases failure with
    | some e => rfl
    | none =>
      show (⟨items ++ [], none⟩ : Emitted ε α) = ⟨items, none⟩
      rw [append_nil]

theorem each_ite (test : β -> Bool) (f : β -> Emitted ε α) (bs : List β) :
    each (fun b => if test b then f b else nothing) bs =
      each f (bs.filter test) := by
  induction bs with
  | nil => rfl
  | cons b rest ih =>
    rw [each, ih]
    cases htest : test b with
    | true =>
      rw [if_pos rfl, filter_cons_of_pos htest]
      rfl
    | false =>
      rw [if_neg Bool.false_ne_true, nothing_andThen,
        filter_cons_of_neg (by rw [htest]; exact Bool.false_ne_true)]

theorem pairwise_andThen {R : α -> α -> Prop} {x : Emitted ε α}
    (hx : x.items.Pairwise R) (hy : y.items.Pairwise R)
    (hxy : forall a, a ∈ x.items -> forall b, b ∈ y.items -> R a b) :
    (x.andThen y).items.Pairwise R := by
  rw [andThen]
  split
  · exact hx
  · exact pairwise_append.mpr ⟨hx, hy, hxy⟩

theorem pairwise_each {R : α -> α -> Prop}
    (hone : forall b, b ∈ bs -> (f b).items.Pairwise R)
    (htwo : bs.Pairwise fun b b' =>
      forall a, a ∈ (f b).items -> forall a', a' ∈ (f b').items -> R a a') :
    (each f bs).items.Pairwise R := by
  induction bs with
  | nil => exact List.Pairwise.nil
  | cons b rest ih =>
    rw [pairwise_cons] at htwo
    apply pairwise_andThen (hone b mem_cons_self)
    · exact ih (fun b' hb => hone b' (mem_cons_of_mem _ hb)) htwo.2
    · intro a ha a' ha'
      rcases mem_items_each ha' with ⟨b', hb', hmem⟩
      exact htwo.1 b' hb' a ha a' hmem

theorem each_filter {g : β -> Emitted ε α} {keep : α -> Bool}
    (h : each f bs = ⟨xs, none⟩)
    (hkeep : forall b, b ∈ bs -> forall ys : List α, f b = ⟨ys, none⟩ ->
      g b = ⟨ys.filter keep, none⟩) :
    each g bs = ⟨xs.filter keep, none⟩ := by
  induction bs generalizing xs with
  | nil =>
    cases h
    rfl
  | cons b rest ih =>
    rcases andThen_eq_ok h with ⟨ys, zs, hfirst, hrest, heq⟩
    have htail := ih hrest fun b' hb => hkeep b' (mem_cons_of_mem _ hb)
    rw [each, hkeep b mem_cons_self ys hfirst, htail, andThen_of_ok,
      heq, filter_append]

/-!
# Bounded collection
-/

/-- `is_some_and(|limit| count >= limit)`. -/
def reached (limit : Option Nat) (count : Nat) : Bool :=
  match limit with
  | none => false
  | some n => decide (n ≤ count)

/-- What a collection with a limit holds after the producer ran. -/
def collect (limit : Option Nat) (result : List α) (x : Emitted ε α) :
    Except ε (List α) :=
  match limit with
  | none =>
    match x.failure with
    | some e => .error e
    | none => .ok (result ++ x.items)
  | some n =>
    if n ≤ result.length then .ok result
    else if n ≤ (result ++ x.items).length then
      .ok ((result ++ x.items).take n)
    else
      match x.failure with
      | some e => .error e
      | none => .ok (result ++ x.items)

theorem collect_nothing (limit : Option Nat) (result : List α) :
    collect limit result (nothing : Emitted ε α) = Except.ok result := by
  cases limit with
  | none => exact congrArg Except.ok (append_nil result)
  | some n =>
    rw [collect, nothing, append_nil]
    split
    · rfl
    · rfl

variable {limit : Option Nat}

variable {result : List α}

theorem collect_of_reached
    (h : reached limit result.length = true) (x : Emitted ε α) :
    collect limit result x = .ok result := by
  cases limit with
  | none => cases h
  | some n =>
    rw [collect, if_pos (of_decide_eq_true h)]

theorem collect_fail (h : reached limit result.length = false) (e : ε) :
    collect limit result (fail e) = .error e := by
  cases limit with
  | none => rfl
  | some n =>
    have hroom := of_decide_eq_false h
    rw [collect, if_neg hroom, fail, append_nil, if_neg hroom]

theorem collect_one (h : reached limit result.length = false) (a : α) :
    collect limit result (one a : Emitted ε α) = .ok (result ++ [a]) := by
  cases limit with
  | none => rfl
  | some n =>
    have hroom := of_decide_eq_false h
    rw [collect, if_neg hroom]
    split
    · rename_i hfull
      rw [one] at hfull ⊢
      rw [take_of_length_le]
      rw [length_append, length_singleton]
      exact Nat.not_le.mp hroom
    · rfl

/-- A collection goes on where the one before stopped. -/
theorem collect_andThen (limit : Option Nat) (result : List α)
    (x y : Emitted ε α) :
    collect limit result (x.andThen y) =
      (collect limit result x).bind fun middle => collect limit middle y := by
  cases x with
  | mk xs failure =>
    cases limit with
    | none =>
      cases failure with
      | some e => rfl
      | none =>
        rw [andThen_of_ok]
        show collect none result ⟨xs ++ y.items, y.failure⟩ =
          collect none (result ++ xs) y
        rw [collect, collect, append_assoc]
    | some n =>
      by_cases hfull : n ≤ result.length
      · have hstop : reached (some n) result.length = true := decide_eq_true hfull
        rw [collect_of_reached hstop, collect_of_reached hstop]
        exact (collect_of_reached hstop y).symm
      by_cases hthere : n ≤ (result ++ xs).length
      · have hfirst : collect (some n) result ⟨xs, failure⟩ =
            .ok ((result ++ xs).take n) := by
          rw [collect, if_neg hfull, if_pos hthere]
        have hlen : ((result ++ xs).take n).length = n :=
          length_take_of_le hthere
        have hstop : reached (some n) ((result ++ xs).take n).length = true :=
          decide_eq_true (Nat.le_of_eq hlen.symm)
        rw [hfirst]
        show _ = collect (some n) ((result ++ xs).take n) y
        rw [collect_of_reached hstop]
        cases failure with
        | some e => exact hfirst
        | none =>
          have hall : n ≤ (result ++ (xs ++ y.items)).length := by
            rw [← append_assoc, length_append]
            exact Nat.le_add_right_of_le hthere
          rw [andThen_of_ok, collect, if_neg hfull, if_pos hall,
            ← append_assoc, take_append_of_le_length hthere]
      · cases failure with
        | some e =>
          show collect (some n) result ⟨xs, some e⟩ = _
          rw [collect, if_neg hfull, if_neg hthere]
          rfl
        | none =>
          have hfirst : collect (some n) result ⟨xs, none⟩ =
              (.ok (result ++ xs) : Except ε (List α)) := by
            rw [collect, if_neg hfull, if_neg hthere]
          rw [hfirst, andThen_of_ok]
          show _ = collect (some n) (result ++ xs) y
          rw [collect, collect, if_neg hfull, if_neg hthere, ← append_assoc]

theorem collect_none (x : Emitted ε α) : collect none [] x = x.toExcept := by
  rfl

theorem collect_some (n : Nat) (xs : List α) :
    collect (some n) [] (⟨xs, none⟩ : Emitted ε α) = .ok (xs.take n) := by
  rw [collect, nil_append]
  split
  · rename_i hzero
    rw [Nat.le_zero.mp hzero]
    rfl
  · split
    · rfl
    · rename_i hshort
      rw [take_of_length_le (Nat.le_of_not_le hshort)]

/-- The collection fails at a failure that comes before the limit. -/
def Blocked (limit : Option Nat) (x : Emitted ε α) : Prop :=
  x.failure ≠ none ∧ reached limit x.items.length = false

theorem collect_eq_error_iff :
    (exists e : ε, collect limit [] x = .error e) <-> Blocked limit x := by
  cases x with
  | mk items failure =>
    cases limit with
    | none =>
      rw [collect_none, toExcept, Blocked]
      cases failure with
      | none => simp
      | some e => simp [reached]
    | some n =>
      rw [collect, nil_append, Blocked]
      by_cases hzero : n ≤ 0
      · have hfull : n ≤ items.length := Nat.le_trans hzero (Nat.zero_le _)
        rw [length_nil, if_pos hzero]
        simp [reached, hfull]
      · by_cases hfull : n ≤ items.length
        · rw [length_nil, if_neg hzero, if_pos hfull]
          simp [reached, hfull]
        · rw [length_nil, if_neg hzero, if_neg hfull]
          cases failure with
          | none => simp
          | some e => simp [reached, Nat.not_le.mp hfull]

variable {pre rest : List α}

theorem getElem?_collect {a : α} (h : collect limit [] x = .ok xs)
    (hitems : x.items = pre ++ a :: rest)
    (hroom : reached limit pre.length = false) : xs[pre.length]? = some a := by
  have hat : x.items[pre.length]? = some a := by
    rw [hitems, getElem?_append_right (Nat.le_refl _), Nat.sub_self]
    rfl
  cases limit with
  | none =>
    rw [collect_none, toExcept_eq_ok_iff] at h
    rw [h] at hat
    exact hat
  | some n =>
    have hlt : pre.length < n := Nat.not_le.mp (of_decide_eq_false hroom)
    rw [collect, nil_append, length_nil,
      if_neg (Nat.not_le.mpr (Nat.zero_lt_of_lt hlt))] at h
    split at h
    · cases h
      rw [getElem?_take_of_lt hlt, hat]
    · split at h
      · cases h
      · cases h
        exact hat

theorem collect_of_full (hitems : x.items = pre ++ rest)
    (hfull : reached limit pre.length = true) :
    collect limit [] x = collect limit [] (⟨pre, none⟩ : Emitted ε α) := by
  cases limit with
  | none => cases hfull
  | some n =>
    have hle : n ≤ pre.length := of_decide_eq_true hfull
    rw [collect_some, collect, nil_append, hitems, length_nil]
    by_cases hzero : n ≤ 0
    · rw [if_pos hzero, Nat.le_zero.mp hzero]
      rfl
    · rw [if_neg hzero, length_append,
        if_pos (Nat.le_add_right_of_le hle), take_append_of_le_length hle]

/-- A collection that succeeds is full, or holds all items. -/
theorem collect_ok_cases (h : collect limit result x = .ok xs) :
    reached limit xs.length = true ∨
      (x.failure = none ∧ xs = result ++ x.items) := by
  cases limit with
  | none =>
    rw [collect] at h
    cases hfailure : x.failure with
    | some e =>
      rw [hfailure] at h
      cases h
    | none =>
      rw [hfailure] at h
      exact .inr ⟨rfl, (Except.ok.inj h).symm⟩
  | some n =>
    rw [collect] at h
    split at h
    · rename_i hfull
      cases h
      exact .inl (decide_eq_true hfull)
    split at h
    · rename_i hfull
      cases h
      exact .inl
        (decide_eq_true (Nat.le_of_eq (length_take_of_le hfull).symm))
    · cases hfailure : x.failure with
      | some e =>
        rw [hfailure] at h
        cases h
      | none =>
        rw [hfailure] at h
        exact .inr ⟨rfl, (Except.ok.inj h).symm⟩

theorem length_collect_le (h : collect limit result x = .ok xs) :
    xs.length ≤ (result ++ x.items).length := by
  rw [length_append]
  cases limit with
  | none =>
    rcases collect_ok_cases h with hfull | ⟨_, rfl⟩
    · cases hfull
    · exact Nat.le_of_eq length_append
  | some n =>
    rw [collect] at h
    split at h
    · cases h
      exact Nat.le_add_right _ _
    split at h
    · cases h
      rw [← length_append]
      exact length_take_le' n _
    · split at h
      · cases h
      · cases h
        exact Nat.le_of_eq length_append

theorem collect_ne_error (h : x.failure = none)
    (limit : Option Nat) (result : List α) (e : ε) :
    collect limit result x ≠ .error e := by
  intro herror
  cases limit with
  | none =>
    rw [collect, h] at herror
    cases herror
  | some n =>
    rw [collect, h] at herror
    split at herror
    · cases herror
    · split at herror
      · cases herror
      · cases herror

theorem reached_mono {m n : Nat} (hle : m ≤ n)
    (h : reached limit m = true) : reached limit n = true := by
  cases limit with
  | none => cases h
  | some k => exact decide_eq_true (Nat.le_trans (of_decide_eq_true h) hle)

/-!
# Capped producers

When each producer of a row is cut at what still fits, the items that fit stay
the same.
-/

def capped (limit : Nat) (x : Emitted ε α) : Emitted ε α :=
  ⟨x.items.take limit, x.failure⟩

theorem failure_andThen (x y : Emitted ε α) :
    (x.andThen y).failure = x.failure.or y.failure := by
  cases x with
  | mk items failure =>
    cases failure with
    | some e => rfl
    | none => rfl

theorem failure_each_capped (limit : Nat) (f : β -> Emitted ε α) (bs : List β) :
    (each (fun b => (f b).capped limit) bs).failure = (each f bs).failure := by
  induction bs with
  | nil => rfl
  | cons b rest ih =>
    rw [each, each, failure_andThen, failure_andThen, ih]
    rfl

theorem take_items_capped (limit : Nat) (f : β -> Emitted ε α) (bs : List β) :
    (each (fun b => (f b).capped limit) bs).items.take limit =
      (each f bs).items.take limit := by
  induction bs with
  | nil => rfl
  | cons b rest ih =>
    rw [each, each]
    cases hfirst : f b with
    | mk items failure =>
      cases failure with
      | some e =>
        show (items.take limit).take limit = items.take limit
        rw [take_take, Nat.min_self]
      | none =>
        show (items.take limit ++
            (each (fun b => (f b).capped limit) rest).items).take limit =
          (items ++ (each f rest).items).take limit
        rw [take_append, take_append, take_take,
          Nat.min_self, length_take]
        rcases Nat.le_total limit items.length with hle | hle
        · rw [Nat.min_eq_left hle, Nat.sub_self,
            Nat.sub_eq_zero_of_le hle, take_zero, take_zero]
        have hfront : (each (fun b => (f b).capped limit) rest).items.take
            (limit - items.length) =
              (each f rest).items.take (limit - items.length) := by
          have hcut := congrArg (take (limit - items.length)) ih
          rw [take_take, take_take,
            Nat.min_eq_left (Nat.sub_le _ _)] at hcut
          exact hcut
        rw [Nat.min_eq_right hle, hfront]

/-- A collection that notices being full only when an item does not fit. -/
def collectBeyond (n : Nat) (result : List α) (x : Emitted ε α) :
    Except ε (List α) :=
  if n < (result ++ x.items).length then
    .ok ((result ++ x.items).take n)
  else
    match x.failure with
    | some e => .error e
    | none => .ok (result ++ x.items)

theorem collectBeyond_andThen {n : Nat} (y : Emitted ε α) :
    collectBeyond n result ((⟨xs, none⟩ : Emitted ε α).andThen y) =
      if n < (result ++ xs).length then .ok ((result ++ xs).take n)
      else collectBeyond n (result ++ xs) y := by
  rw [andThen_of_ok]
  split
  · rename_i hbeyond
    have hall : n < (result ++ (xs ++ y.items)).length := by
      rw [← append_assoc, length_append]
      exact Nat.lt_add_right _ hbeyond
    rw [collectBeyond, if_pos hall, ← append_assoc,
      take_append_of_le_length (Nat.le_of_lt hbeyond)]
  · rw [collectBeyond, collectBeyond, ← append_assoc]

/-- The capped producers fill the collection exactly and then fail. -/
def FillsAndFails {β : Type} (f : β -> Emitted ε α) (n held : Nat)
    (bs : List β) : Prop :=
  held < n ∧ (each f bs).failure ≠ none ∧
    held + (each (fun b => (f b).capped (n - held)) bs).items.length = n

section Beyond

variable {β : Type} {f : β -> Emitted ε α} {n : Nat} {result : List α}
  {bs : List β}

theorem items_eq_of_capped_short {limit : Nat}
    (h : (each (fun b => (f b).capped limit) bs).items.length < limit) :
    (each f bs).items = (each (fun b => (f b).capped limit) bs).items := by
  have htake := take_items_capped limit f bs
  rw [take_of_length_le (Nat.le_of_lt h)] at htake
  have hlen := congrArg length htake
  rw [length_take] at hlen
  have hshort : (each f bs).items.length ≤ limit := by omega
  rw [htake, take_of_length_le hshort]

theorem length_le_of_capped {limit : Nat}
    (h : limit ≤ (each (fun b => (f b).capped limit) bs).items.length) :
    limit ≤ (each f bs).items.length := by
  have hlen := congrArg length (take_items_capped limit f bs)
  rw [length_take, length_take, Nat.min_eq_left h] at hlen
  omega

theorem take_append_capped (n : Nat) (result : List α) (f : β -> Emitted ε α)
    (bs : List β) :
    (result ++ (each (fun b => (f b).capped (n - result.length)) bs).items).take n =
      (result ++ (each f bs).items).take n := by
  rw [take_append, take_append, take_items_capped]

theorem collectBeyond_eq_collect (hroom : result.length < n)
    (h : ¬ FillsAndFails f n result.length bs) :
    collectBeyond n result (each (fun b => (f b).capped (n - result.length)) bs) =
      collect (some n) result (each f bs) := by
  have htake := take_append_capped n result f bs
  have hfail := failure_each_capped (n - result.length) f bs
  rw [collectBeyond, collect, if_neg (Nat.not_le.mpr hroom), htake, hfail]
  rw [length_append, length_append]
  rcases Nat.lt_trichotomy
    (result.length +
      (each (fun b => (f b).capped (n - result.length)) bs).items.length) n with
    hlt | heq | hgt
  · have hshort : (each (fun b => (f b).capped (n - result.length))
        bs).items.length < n - result.length := by omega
    have hitems := items_eq_of_capped_short hshort
    rw [hitems, if_neg (Nat.not_lt.mpr (Nat.le_of_lt hlt)),
      if_neg (Nat.not_le.mpr hlt)]
  · have hcap : n - result.length ≤
        (each (fun b => (f b).capped (n - result.length)) bs).items.length := by
      omega
    have hfill := length_le_of_capped hcap
    have hfailure : (each f bs).failure = none := by
      by_contra hne
      exact h ⟨hroom, hne, heq⟩
    rw [if_neg (Nat.not_lt.mpr (Nat.le_of_eq heq)), if_pos (by omega), hfailure]
    show Except.ok _ = _
    rw [← htake, take_of_length_le]
    rw [length_append]
    exact Nat.le_of_eq heq
  · have hcap : n - result.length ≤
        (each (fun b => (f b).capped (n - result.length)) bs).items.length := by
      omega
    have hfill := length_le_of_capped hcap
    rw [if_pos hgt, if_pos (by omega)]

theorem FillsAndFails.diverges (h : FillsAndFails f n result.length bs) :
    (exists e : ε, collectBeyond n result
        (each (fun b => (f b).capped (n - result.length)) bs) = .error e) ∧
      exists xs : List α, collect (some n) result (each f bs) = .ok xs := by
  rcases h with ⟨hroom, hfailure, heq⟩
  have hcap : n - result.length ≤
      (each (fun b => (f b).capped (n - result.length)) bs).items.length := by
    omega
  have hfill := length_le_of_capped hcap
  constructor
  · rcases Option.ne_none_iff_exists'.mp hfailure with ⟨e, he⟩
    refine ⟨e, ?_⟩
    rw [collectBeyond, failure_each_capped, he, length_append,
      if_neg (Nat.not_lt.mpr (Nat.le_of_eq heq))]
  · refine ⟨(result ++ (each f bs).items).take n, ?_⟩
    rw [collect, if_neg (Nat.not_le.mpr hroom), length_append,
      if_pos (by omega)]

end Beyond

/-!
# Two producers in step

The items of the first producer carry a mark.  The two producers agree up to
the first item whose mark is false, where they differ.
-/

def map {β : Type} (f : α -> β) (x : Emitted ε α) : Emitted ε β :=
  ⟨x.items.map f, x.failure⟩

theorem map_andThen (f : α -> β) (x y : Emitted ε α) :
    (x.andThen y).map f = (x.map f).andThen (y.map f) := by
  cases x with
  | mk items failure =>
    cases failure with
    | some e => rfl
    | none =>
      show (⟨(items ++ y.items).map f, y.failure⟩ : Emitted ε β) = _
      rw [map_append]
      rfl

inductive InStep (x : Emitted ε (α × Bool)) (y : Emitted ε α) : Prop where
  | same (hmarks : forall p, p ∈ x.items -> p.2 = true)
      (heq : x.map Prod.fst = y)
  | parts (pre rest : List (α × Bool)) (rest' : List α) (a b : α)
      (hmarks : forall p, p ∈ pre -> p.2 = true)
      (hfirst : x.items = pre ++ (a, false) :: rest)
      (hlast : y.items = pre.map Prod.fst ++ b :: rest') (hne : a ≠ b)

theorem inStep_fail (e : ε) :
    InStep (fail e : Emitted ε (α × Bool)) (fail e) :=
  .same nofun rfl

theorem inStep_nothing :
    InStep (nothing : Emitted ε (α × Bool)) nothing :=
  .same nofun rfl

theorem inStep_one (a : α) : InStep (one (a, true) : Emitted ε (α × Bool)) (one a) := by
  apply InStep.same
  · intro p hp
    cases mem_singleton.mp hp
    rfl
  · rfl

theorem items_andThen_of_append (h : x.items = pre ++ rest) (y : Emitted ε α) :
    exists more : List α, (x.andThen y).items = pre ++ (rest ++ more) := by
  rw [andThen]
  split
  · exact ⟨[], by rw [append_nil, h]⟩
  · exact ⟨y.items, by rw [← append_assoc, h]⟩

theorem inStep_differ {a b : α} (hne : a ≠ b) (x : Emitted ε (α × Bool))
    (y : Emitted ε α) :
    InStep ((one (a, false)).andThen x) ((one b).andThen y) :=
  .parts [] _ _ a b nofun rfl rfl hne

theorem InStep.andThen {x x' : Emitted ε (α × Bool)} {y' : Emitted ε α}
    (h : InStep x y) (h' : InStep x' y') :
    InStep (x.andThen x') (y.andThen y') := by
  cases h with
  | same hmarks heq =>
    cases x with
    | mk items failure =>
      cases failure with
      | some e =>
        cases heq
        exact InStep.same hmarks rfl
      | none =>
        cases heq
        cases h' with
        | same hmarks' heq' =>
          apply InStep.same
          · intro p hp
            rcases mem_append.mp hp with hleft | hright
            · exact hmarks p hleft
            · exact hmarks' p hright
          · rw [map_andThen, heq']
        | parts pre rest rest' a b hmarks' hfirst hlast hne =>
          apply InStep.parts (items ++ pre) rest rest' a b
          · intro p hp
            rcases mem_append.mp hp with hleft | hright
            · exact hmarks p hleft
            · exact hmarks' p hright
          · show items ++ x'.items = _
            rw [hfirst, append_assoc]
          · show items.map fst ++ y'.items = _
            rw [hlast, map_append, append_assoc]
          · exact hne
  | parts pre rest rest' a b hmarks hfirst hlast hne =>
    rcases items_andThen_of_append hfirst x' with ⟨more, heq⟩
    rcases items_andThen_of_append hlast y' with ⟨more', heq'⟩
    exact InStep.parts pre _ _ a b hmarks heq heq' hne

/-- The mark holds at each place before the limit. -/
def InPlace (limit : Option Nat) (x : Emitted ε (α × Bool)) : Prop :=
  forall (i : Nat) (p : α × Bool), x.items[i]? = some p ->
    reached limit i = false -> p.2 = true

/-- Collections of producers in step agree exactly up to a false mark. -/
theorem InStep.collect_iff {x : Emitted ε (α × Bool)}
    (h : InStep x y) (limit : Option Nat) :
    (forall xs : List α,
      collect limit [] (x.map fst) = .ok xs <->
        collect limit [] y = .ok xs) <->
      InPlace limit x ∨ (Blocked limit (x.map fst) ∧ Blocked limit y) := by
  cases h with
  | same hmarks heq =>
    rw [heq]
    constructor
    · intro _
      exact .inl fun i p hp _ => hmarks p (mem_of_getElem? hp)
    · intro _ xs
      exact Iff.rfl
  | parts pre rest rest' a b hmarks hfirst hlast hne =>
    have hfirst' : (x.map fst).items =
        pre.map fst ++ a :: rest.map fst := by
      show x.items.map fst = _
      rw [hfirst, map_append, map_cons]
    have hat : x.items[pre.length]? = some (a, false) := by
      rw [hfirst, getElem?_append_right (Nat.le_refl _), Nat.sub_self]
      rfl
    have hlen : (pre.map fst).length = pre.length := length_map _
    cases hroom : reached limit pre.length with
    | true =>
      have hfull : reached limit (pre.map fst).length = true := by
        rw [hlen, hroom]
      have heq := (collect_of_full hfirst' hfull).trans
        (collect_of_full hlast hfull).symm
      constructor
      · intro _
        refine .inl fun i p hp hbefore => ?_
        have hlt : i < pre.length := by
          cases limit with
          | none => cases hroom
          | some n =>
            exact Nat.lt_of_lt_of_le (Nat.not_le.mp (of_decide_eq_false hbefore))
              (of_decide_eq_true hroom)
        rw [hfirst, getElem?_append_left hlt] at hp
        exact hmarks p (mem_of_getElem? hp)
      · intro _ xs
        rw [heq]
    | false =>
      have hroom' : reached limit (pre.map fst).length = false := by
        rw [hlen, hroom]
      have hdiffer : forall xs : List α,
          collect limit [] (x.map fst) = .ok xs ->
            collect limit [] y = .ok xs -> False := by
        intro xs hx hy
        have hxa := getElem?_collect hx hfirst' hroom'
        have hyb := getElem?_collect hy hlast hroom'
        exact hne (Option.some.inj (hxa.symm.trans hyb))
      constructor
      · intro hall
        refine .inr ⟨collect_eq_error_iff.mp ?_, collect_eq_error_iff.mp ?_⟩
        · cases hx : collect limit [] (x.map fst) with
          | error e => exact ⟨e, rfl⟩
          | ok xs => exact (hdiffer xs hx ((hall xs).mp hx)).elim
        · cases hy : collect limit [] y with
          | error e => exact ⟨e, rfl⟩
          | ok ys => exact (hdiffer ys ((hall ys).mpr hy) hy).elim
      · intro hcase xs
        rcases hcase with hplace | ⟨hx, hy⟩
        · exact absurd (hplace pre.length (a, false) hat hroom) Bool.false_ne_true
        · rcases collect_eq_error_iff.mpr hx with ⟨e, hx⟩
          rcases collect_eq_error_iff.mpr hy with ⟨e', hy⟩
          rw [hx, hy]
          constructor
          · nofun
          · nofun

end Emitted
end OpenViking
