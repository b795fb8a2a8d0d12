import OpenViking.Vector.FlatStore
import OpenViking.Vector.SparseRowIndexCorrect

/-!
# The catalog of live labels

What the vector store is for: a label, while it lives, has one logical offset
and the data that was last given for it.  Offsets are handed out in order, and
the catalog remembers which label had which.
-/

namespace OpenViking
namespace Vector

open Paths Function List

/-- What is known about a live label. -/
structure Entry (enc value : Type) where
  offset : Nat
  vector : Option enc
  sparse : List (TermKey × value)

structure Catalog (enc value : Type) where
  live : Label -> Option (Entry enc value)
  next : Nat
  past : List (Label × Nat)

namespace Catalog

variable {enc value : Type}

def empty : Catalog enc value where
  live := fun _ => none
  next := 0
  past := []

/-- A known label keeps its offset and what is not given again. -/
def add (c : Catalog enc value) (vector : Option enc) (label : Label)
    (sparse : Option (List (TermKey × value))) : Catalog enc value :=
  match c.live label with
  | some e =>
    { c with
      live := update c.live label (some {
        offset := e.offset
        vector := vector.or e.vector
        sparse := sparse.getD e.sparse }) }
  | none =>
    { live := update c.live label (some {
        offset := c.next
        vector := vector
        sparse := sparse.getD [] })
      next := c.next + 1
      past := c.past ++ [(label, c.next)] }

variable {c : Catalog enc value} {e : Entry enc value} {label : Label}

theorem add_of_live (h : c.live label = some e) (vector : Option enc)
    (sparse : Option (List (TermKey × value))) :
    c.add vector label sparse =
      { c with
        live := update c.live label (some {
          offset := e.offset
          vector := vector.or e.vector
          sparse := sparse.getD e.sparse }) } := by
  rw [Catalog.add, h]

theorem add_of_new
    (h : c.live label = none) (vector : Option enc)
    (sparse : Option (List (TermKey × value))) :
    c.add vector label sparse =
      { live := update c.live label (some {
          offset := c.next
          vector := vector
          sparse := sparse.getD [] })
        next := c.next + 1
        past := c.past ++ [(label, c.next)] } := by
  rw [Catalog.add, h]

def remove (c : Catalog enc value) (label : Label) : Catalog enc value :=
  { c with live := update c.live label none }

/-- Every offset was handed out once, in order. -/
structure Ok (c : Catalog enc value) : Prop where
  used : forall label e, c.live label = some e -> (label, e.offset) ∈ c.past
  distinct : (c.past.map Prod.snd).Nodup
  below : forall p, p ∈ c.past -> p.2 < c.next

theorem ok_empty : (empty : Catalog enc value).Ok where
  used := nofun
  distinct := nodup_nil
  below := nofun

theorem Ok.add (h : c.Ok) (vector : Option enc)
    (label : Label) (sparse : Option (List (TermKey × value))) :
    (c.add vector label sparse).Ok := by
  cases hlive : c.live label with
  | some e =>
    rw [add_of_live hlive]
    constructor
    · intro l e' hl
      simp only [update_apply] at hl
      split at hl
      next heq =>
        cases hl
        rw [heq]
        exact h.used label e hlive
      next => exact h.used l e' hl
    · exact h.distinct
    · exact h.below
  | none =>
    rw [add_of_new hlive]
    constructor
    · intro l e' hl
      simp only [update_apply] at hl
      split at hl
      next heq =>
        cases hl
        rw [heq]
        exact mem_append_right _ mem_cons_self
      next => exact mem_append_left _ (h.used l e' hl)
    · rw [map_append, nodup_append]
      refine ⟨h.distinct, by simp, ?_⟩
      intro a ha b hb heq
      rcases mem_map.mp ha with ⟨p, hp, rfl⟩
      have hb' : b = c.next := by simpa using hb
      have hlt := h.below p hp
      omega
    · intro p hp
      rcases mem_append.mp hp with hp | hp
      · exact Nat.lt_succ_of_lt (h.below p hp)
      · rw [mem_singleton.mp hp]
        exact Nat.lt_succ_self _

theorem Ok.remove (h : c.Ok) (label : Label) :
    (c.remove label).Ok where
  used := by
    intro l e hl
    simp only [Catalog.remove, update_apply] at hl
    split at hl
    next => cases hl
    next => exact h.used l e hl
  distinct := h.distinct
  below := h.below

theorem Ok.owner (h : c.Ok) {label other : Label} (hlive : c.live label = some e)
    (hother : (other, e.offset) ∈ c.past) : other = label := by
  have hsame := inj_on_of_nodup_map h.distinct hother
    (h.used label e hlive) rfl
  exact congrArg Prod.fst hsame

theorem Ok.offset_lt (h : c.Ok) (hlive : c.live label = some e) :
    e.offset < c.next :=
  h.below _ (h.used label e hlive)

theorem add_offset {vector : Option enc}
    {label other : Label} {sparse : Option (List (TermKey × value))} (hlive : c.live other = some e) :
    exists e', (c.add vector label sparse).live other = some e' ∧
      e'.offset = e.offset := by
  rw [Catalog.add]
  by_cases heq : other = label
  · subst heq
    rw [hlive]
    exact ⟨_, update_self .., rfl⟩
  · refine ⟨e, ?_, rfl⟩
    cases c.live label with
    | some _ => rw [← hlive]; exact update_of_ne heq ..
    | none => rw [← hlive]; exact update_of_ne heq ..

end Catalog

/-!
# Sessions

An index is built, is given points, loses points, and is saved to and loaded
from directories.
-/

/-- What is asked of the store. -/
inductive Op (term vec value : Type) where
  | create (maxElementCount : Nat)
  | add (vector : Option vec) (label : Label)
      (sparseData : Option (LowLevelSparse term value))
  | remove (label : Label)
  | save (dir : Str)
  | load (dir : Str)

/-- The index object in use and the directories. -/
structure World (enc value : Type) where
  store : FlatStore enc value
  dirs : Str -> IndexDir enc value

namespace World

variable {term vec enc value : Type} [Add value] [Zero value]

variable (cfg : Config term vec enc)

def start (maxElementCount : Nat) :
    World enc value where
  store := FlatStore.new cfg maxElementCount
  dirs := fun _ => ⟨none, none⟩

def step (w : World enc value) :
    Op term vec value -> World enc value
  | .create n => { w with store := FlatStore.new cfg n }
  | .add vector label sparseData =>
    { w with store := (w.store.addPoint cfg vector label sparseData).2 }
  | .remove label => { w with store := (w.store.removePoint cfg label).2 }
  | .save dir =>
    { w with
      dirs := update w.dirs dir (w.store.save cfg (w.dirs dir)).2 }
  | .load dir => { w with store := (w.store.load cfg (w.dirs dir)).2 }

def run (w : World enc value)
    (ops : List (Op term vec value)) : World enc value :=
  ops.foldl (step cfg) w

end World

/-- The catalog of the index object in use, whether that object was given
sparse data or loaded a directory, and the catalogs that were saved. -/
structure Ledger (enc value : Type) where
  current : Catalog enc value
  fresh : Bool
  saved : Str -> Option (Catalog enc value)

namespace Ledger

variable {term vec enc value : Type} [Add value]

def start : Ledger enc value where
  current := Catalog.empty
  fresh := true
  saved := fun _ => none

variable (cfg : Config term vec enc)

/-- The sparse data of a call: `none` when the call rejects it. -/
def givenSparse :
    Option (LowLevelSparse term value) ->
      Option (Option (List (TermKey × value)))
  | none => some none
  | some data =>
    if cfg.enableSparse then
      match data.rawTerms with
      | none => none
      | some rawTerms =>
        if rawTerms.length ≠ data.values.length then none
        else some (some (accumulate
          ((rawTerms.map cfg.hash).zip data.values)))
    else some none

def step (a : Ledger enc value) :
    Op term vec value -> Ledger enc value
  | .create _ => { a with current := Catalog.empty, fresh := true }
  | .add vector label sparseData =>
    let fresh := a.fresh && sparseData.isNone
    match givenSparse cfg sparseData with
    | none => { a with fresh := fresh }
    | some sparse =>
      { a with
        current := a.current.add (vector.map cfg.encode) label sparse
        fresh := fresh }
  | .remove label => { a with current := a.current.remove label }
  | .save dir =>
    { a with saved := update a.saved dir (some a.current) }
  | .load dir =>
    match a.saved dir with
    | none => a
    | some c => { a with current := c, fresh := false }

def run (a : Ledger enc value)
    (ops : List (Op term vec value)) : Ledger enc value :=
  ops.foldl (step cfg) a

/-- With sparse data a directory is only loaded into an object that was not
given sparse data and has not loaded one before. -/
def LoadsFresh (cfg : Config term vec enc) (a : Ledger enc value) :
    List (Op term vec value) -> Prop
  | [] => True
  | op :: rest =>
    (forall dir, op = .load dir -> cfg.enableSparse = true ->
      a.fresh = true) ∧ LoadsFresh cfg (a.step cfg op) rest

/-- The catalogs in use and in the directories are in order. -/
structure Ok (a : Ledger enc value) : Prop where
  current : a.current.Ok
  saved : forall dir c, a.saved dir = some c -> c.Ok

omit [Add value] in
theorem ok_start : (start : Ledger enc value).Ok where
  current := Catalog.ok_empty
  saved := nofun

theorem Ok.step {a : Ledger enc value} (h : a.Ok)
    (cfg : Config term vec enc) (op : Op term vec value) :
    (a.step cfg op).Ok := by
  cases op with
  | create n => exact ⟨Catalog.ok_empty, h.saved⟩
  | add vector label sparseData =>
    rw [Ledger.step]
    cases givenSparse cfg sparseData with
    | none => exact ⟨h.current, h.saved⟩
    | some sparse => exact ⟨h.current.add _ _ _, h.saved⟩
  | remove label => exact ⟨h.current.remove label, h.saved⟩
  | save dir =>
    refine ⟨h.current, ?_⟩
    intro d c hc
    simp only [Ledger.step, update_apply] at hc
    split at hc
    next =>
      cases hc
      exact h.current
    next => exact h.saved d c hc
  | load dir =>
    rw [Ledger.step]
    cases hdir : a.saved dir with
    | none => exact h
    | some c => exact ⟨h.saved dir c hdir, h.saved⟩

theorem Ok.run {a : Ledger enc value} (h : a.Ok) (cfg : Config term vec enc)
    (ops : List (Op term vec value)) : (a.run cfg ops).Ok := by
  induction ops generalizing a with
  | nil => exact h
  | cons op rest ih => exact ih (h.step cfg op)

/-- The calls that can end the life of a label. -/
def Ends (label : Label) : Op term vec value -> Prop
  | .create _ => True
  | .load _ => True
  | .remove l => l = label
  | _ => False

/-- While no call ends the life of a label its offset stays the same. -/
theorem run_offset (a : Ledger enc value) (ops : List (Op term vec value))
    (hlive : a.current.live label = some e)
    (hops : forall op, op ∈ ops -> ¬ Ends label op) :
    exists e', (a.run cfg ops).current.live label = some e' ∧
      e'.offset = e.offset := by
  induction ops generalizing a e with
  | nil => exact ⟨e, hlive, rfl⟩
  | cons op rest ih =>
    have hop := hops op mem_cons_self
    have hstep : exists e', (a.step cfg op).current.live label = some e' ∧
        e'.offset = e.offset := by
      cases op with
      | create n => exact absurd trivial hop
      | load dir => exact absurd trivial hop
      | save dir => exact ⟨e, hlive, rfl⟩
      | remove l =>
        refine ⟨e, ?_, rfl⟩
        rw [← hlive]
        exact update_of_ne (fun heq => hop heq.symm) ..
      | add vector l sparseData =>
        rw [Ledger.step]
        cases givenSparse cfg sparseData with
        | none => exact ⟨e, hlive, rfl⟩
        | some sparse => exact Catalog.add_offset hlive
    rcases hstep with ⟨e1, hlive1, heq1⟩
    rcases ih (a.step cfg op) hlive1
      (fun o ho => hops o (mem_cons_of_mem _ ho)) with
      ⟨e2, hlive2, heq2⟩
    exact ⟨e2, hlive2, heq2.trans heq1⟩

end Ledger
end Vector
end OpenViking
