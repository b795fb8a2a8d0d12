import OpenViking.Common.Interleaving
import Mathlib.Data.List.Nodup

/-!
# Appending to a file

A call of `append_file` takes the lock of the file, unless its caller hands it a
lease, reads the file, and writes back the text it has read with its own text
behind it.  The calls on one file take their steps in any order.
-/

namespace OpenViking
namespace Append

open Interleaving List ByteArray

/-- Every byte is the character of its number. -/
def decodeLatin1 (data : ByteArray) : String :=
  String.ofList (data.toList.map fun byte => Char.ofNat byte.toNat)

variable (gbk : ByteArray -> Option String)

/-- `gbk` is the decoder of the encoding of that name. -/
def decodeBytes (data : ByteArray) :
    String :=
  if data.isEmpty then ""
  else
    match String.fromUTF8? data with
    | some text => text
    | none =>
      match gbk data with
      | some text => text
      | none => decodeLatin1 data

/-- Who holds the lock of the file: a call that took it itself, or a caller
under a lease that it may hand to calls. -/
inductive Holder where
  | call (i : Nat)
  | caller (lease : Nat)
deriving DecidableEq

/-- Where a call stands. -/
inductive Place where
  | starting
  | reading
  | writing (existing : String)
  | written
  | finished
  | failed

structure Call where
  content : String
  leaseRef : Option Nat
  place : Place

/-- The lock holder under which a call accesses the file. -/
def Call.holder (c : Call) (i : Nat) : Holder :=
  match c.leaseRef with
  | none => .call i
  | some lease => .caller lease

/-- `leases` counts the leases that callers were granted so far. -/
structure World where
  file : Option ByteArray
  holder : Option Holder
  leases : Nat
  calls : List Call

namespace World

/-- The bytes of the file, none where it is missing. -/
def bytes (w : World) : ByteArray :=
  w.file.getD ByteArray.empty

def setCall (w : World) (i : Nat) (c : Call) : World :=
  { w with calls := w.calls.set i c }

/-- A call that took the lock itself gives it back when it ends. -/
def release (w : World) (c : Call) : World :=
  match c.leaseRef with
  | none => { w with holder := none }
  | some _ => w

end World

inductive Label where
  | grant
  | revoke
  | lock (i : Nat)
  | read (i : Nat)
  | write (i : Nat)
  | unlock (i : Nat)
  | fail (i : Nat)
deriving DecidableEq

/-- The lock of a call without a lease is refused at once where it is held. -/
def lockStep (w : World) (i : Nat) (c : Call) : Option World :=
  match c.leaseRef with
  | none =>
      if w.holder = none then
        some ({ w with holder := some (.call i) }.setCall i
          { c with place := .reading })
      else some (w.setCall i { c with place := .failed })
  | some lease =>
      if lease < w.leases then some (w.setCall i { c with place := .reading })
      else none

/-- The client raises for a missing file, and so does the call. -/
def readStep (w : World) (i : Nat) (c : Call) :
    World :=
  match w.file with
  | none => (w.release c).setCall i { c with place := .failed }
  | some data => w.setCall i { c with place := .writing (decodeBytes gbk data) }

/-- The storage refuses a write under a lease that is not held any more. -/
def writeStep (w : World) (i : Nat) (c : Call) (existing : String) :
    Option World :=
  if w.holder = some (c.holder i) then
    some ({ w with file := some (existing ++ c.content).toUTF8 }.setCall i
      { c with place := .written })
  else none

/-- A step that raises before the write ends the call without an effect. -/
def failStep (w : World) (i : Nat) (c : Call) : Option World :=
  match c.place with
  | .starting => some (w.setCall i { c with place := .failed })
  | .reading | .writing _ =>
      some ((w.release c).setCall i { c with place := .failed })
  | _ => none

def callStep (w : World) (label : Label)
    (i : Nat) (c : Call) : Option World :=
  match label, c.place with
  | .lock _, .starting => lockStep w i c
  | .read _, .reading => some (readStep gbk w i c)
  | .write _, .writing existing => writeStep w i c existing
  | .unlock _, .written =>
      some ((w.release c).setCall i { c with place := .finished })
  | .fail _, _ => failStep w i c
  | _, _ => none

def step (w : World) (label : Label) :
    Option World :=
  match label with
  | .grant =>
      if w.holder = none then
        some { w with holder := some (.caller w.leases), leases := w.leases + 1 }
      else none
  | .revoke =>
      match w.holder with
      | some (.caller _) => some { w with holder := none }
      | _ => none
  | .lock i | .read i | .write i | .unlock i | .fail i =>
      match w.calls[i]? with
      | none => none
      | some c => callStep gbk w label i c

/-- The calls before their first step. -/
def start (file : Option ByteArray) (calls : List (String × Option Nat)) : World where
  file := file
  holder := none
  leases := 0
  calls := calls.map fun call =>
    { content := call.1, leaseRef := call.2, place := .starting }

/-!
# What the appends leave
-/

namespace World

def text (w : World) (i : Nat) : String :=
  match w.calls[i]? with
  | none => ""
  | some c => c.content

def HasWritten (w : World) (i : Nat) : Prop :=
  exists c, w.calls[i]? = some c ∧
    (c.place = .written ∨ c.place = .finished)

end World

def appendAll (data : ByteArray) (texts : List String) : ByteArray :=
  texts.foldl (fun data text => data ++ text.toUTF8) data

/-- The file is what it was with the texts of the calls that have written behind
it, each once. -/
def Appended (file : Option ByteArray) (w : World) : Prop :=
  exists order : List Nat, order.Nodup ∧
    (forall i, i ∈ order <-> w.HasWritten i) ∧
      w.bytes = appendAll (file.getD ByteArray.empty) (order.map w.text)

/-- No call reads while another call under the same lease is between its read and
its write. -/
def Calm (w : World) (label : Label) : Prop :=
  forall i, label = .read i ->
    forall c, w.calls[i]? = some c -> forall lease, c.leaseRef = some lease ->
      forall (j : Nat) (d : Call), j ≠ i -> w.calls[j]? = some d ->
        d.leaseRef = some lease ->
          forall existing, d.place ≠ .writing existing

/-!
# Steps
-/

section Steps

variable {gbk : ByteArray -> Option String} {w w' : World} {label : Label}

/-- A step of one call: the world it leaves, apart from the call, and the call. -/
inductive Move (gbk : ByteArray -> Option String) (w : World) (i : Nat) (c : Call) :
    Label -> World -> Call -> Prop where
  | lock (hplace : c.place = .starting) (hlease : c.leaseRef = none)
      (hfree : w.holder = none) :
      Move gbk w i c (.lock i) { w with holder := some (.call i) }
        { c with place := .reading }
  | refused (hplace : c.place = .starting) :
      Move gbk w i c (.lock i) w { c with place := .failed }
  | handed {lease : Nat} (hplace : c.place = .starting)
      (hlease : c.leaseRef = some lease) (hlt : lease < w.leases) :
      Move gbk w i c (.lock i) w { c with place := .reading }
  | missing (hplace : c.place = .reading) (hfile : w.file = none) :
      Move gbk w i c (.read i) (w.release c) { c with place := .failed }
  | read {data : ByteArray} (hplace : c.place = .reading)
      (hfile : w.file = some data) :
      Move gbk w i c (.read i) w
        { c with place := .writing (decodeBytes gbk data) }
  | write {existing : String} (hplace : c.place = .writing existing)
      (hholder : w.holder = some (c.holder i)) :
      Move gbk w i c (.write i)
        { w with file := some (existing ++ c.content).toUTF8 }
        { c with place := .written }
  | unlock (hplace : c.place = .written) :
      Move gbk w i c (.unlock i) (w.release c)
        { c with place := .finished }
  | failed (hplace : c.place = .starting) :
      Move gbk w i c (.fail i) w { c with place := .failed }
  | raised (hplace : c.place = .reading ∨
        exists existing, c.place = .writing existing) :
      Move gbk w i c (.fail i) (w.release c) { c with place := .failed }

variable {c : Call} {i : Nat}

theorem callStep_cases (hlabel : label = .lock i ∨ label = .read i ∨
      label = .write i ∨ label = .unlock i ∨ label = .fail i)
    (h : callStep gbk w label i c = some w') :
    exists w₁ c', Move gbk w i c label w₁ c' ∧ w' = w₁.setCall i c' := by
  rcases hlabel with rfl | rfl | rfl | rfl | rfl
  · cases hplace : c.place with
    | starting =>
      simp only [callStep, hplace, lockStep] at h
      split at h
      · rename_i hlease
        split at h
        · rename_i hfree
          cases h
          exact ⟨_, _, .lock hplace hlease hfree, rfl⟩
        · cases h
          exact ⟨_, _, .refused hplace, rfl⟩
      · rename_i lease hlease
        split at h
        · rename_i hlt
          cases h
          exact ⟨_, _, .handed hplace hlease hlt, rfl⟩
        · cases h
    | _ => simp [callStep, hplace] at h
  · cases hplace : c.place with
    | reading =>
      simp only [callStep, hplace, readStep] at h
      split at h
      · rename_i hfile
        cases h
        exact ⟨_, _, .missing hplace hfile, rfl⟩
      · rename_i hfile
        cases h
        exact ⟨_, _, .read hplace hfile, rfl⟩
    | _ => simp [callStep, hplace] at h
  · cases hplace : c.place with
    | writing existing =>
      simp only [callStep, hplace, writeStep] at h
      split at h
      · rename_i hholder
        cases h
        exact ⟨_, _, .write hplace hholder, rfl⟩
      · cases h
    | _ => simp [callStep, hplace] at h
  · cases hplace : c.place with
    | written =>
      simp only [callStep, hplace] at h
      cases h
      exact ⟨_, _, .unlock hplace, rfl⟩
    | _ => simp [callStep, hplace] at h
  · simp only [callStep, failStep] at h
    split at h
    · rename_i hplace
      cases h
      exact ⟨_, _, .failed hplace, rfl⟩
    · rename_i hplace
      cases h
      exact ⟨_, _, .raised (.inl hplace), rfl⟩
    · rename_i existing hplace
      cases h
      exact ⟨_, _, .raised (.inr ⟨existing, hplace⟩), rfl⟩
    · cases h

/-- A step is one of a caller that takes or gives back a lease, or one of a call. -/
theorem step_cases (h : step gbk w label = some w') :
    (w.holder = none ∧ w' =
        { w with holder := some (.caller w.leases), leases := w.leases + 1 }) ∨
      w' = { w with holder := none } ∧
        (exists lease, w.holder = some (.caller lease)) ∨
      exists i c w₁ c', w.calls[i]? = some c ∧ Move gbk w i c label w₁ c' ∧
        w' = w₁.setCall i c' := by
  unfold step at h
  split at h
  · split at h
    · rename_i hfree
      cases h
      exact .inl ⟨hfree, rfl⟩
    · cases h
  · split at h
    · rename_i lease hholder
      cases h
      exact .inr (.inl ⟨rfl, lease, hholder⟩)
    · cases h
  all_goals
    split at h
    · cases h
    · rename_i i _ c hc
      rcases callStep_cases (by simp) h with ⟨w₁, c', hmove, heq⟩
      exact .inr (.inr ⟨i, c, w₁, c', hc, hmove, heq⟩)

variable {c' : Call} {w₁ : World}

theorem Move.calls (h : Move gbk w i c label w₁ c') : w₁.calls = w.calls := by
  cases h with
  | missing | unlock | raised =>
    unfold World.release
    split <;> rfl
  | _ => rfl

theorem Move.call (h : Move gbk w i c label w₁ c') :
    c'.leaseRef = c.leaseRef ∧ c'.content = c.content := by
  cases h <;> exact ⟨rfl, rfl⟩

/-!
# What a call can still write is what the file holds
-/

/-- A call may hold the file under its own lock or under a lease that was granted. -/
def Entitled (w : World) (i : Nat) (c : Call) : Prop :=
  match c.leaseRef with
  | none => w.holder = some (.call i)
  | some lease => lease < w.leases

def Fits (gbk : ByteArray -> Option String) (w : World) (i : Nat) (c : Call) :
    Prop :=
  match c.place with
  | .starting | .finished | .failed => True
  | .reading | .written => Entitled w i c
  | .writing existing =>
    Entitled w i c ∧
      (w.holder = some (c.holder i) ->
        w.file.map (decodeBytes gbk) = some existing)

theorem Fits.entitled (h : Fits gbk w i c) (hplace : c.place = .reading ∨
      (exists existing, c.place = .writing existing) ∨
        c.place = .written) : Entitled w i c := by
  unfold Fits at h
  rcases hplace with hplace | ⟨existing, hplace⟩ | hplace
  · rw [hplace] at h
    exact h
  · rw [hplace] at h
    exact h.1
  · rw [hplace] at h
    exact h

theorem Fits.of_world (h : Fits gbk w i c)
    (hentitled : Entitled w i c -> Entitled w' i c)
    (hfresh : w'.holder = some (c.holder i) ->
      (exists existing, c.place = .writing existing) ->
        w.holder = some (c.holder i) ∧ w'.file = w.file) : Fits gbk w' i c := by
  unfold Fits at h ⊢
  cases hplace : c.place with
  | starting | finished | failed => trivial
  | reading | written =>
    rw [hplace] at h
    exact hentitled h
  | writing existing =>
    rw [hplace] at h
    refine ⟨hentitled h.1, ?_⟩
    intro hholder
    rcases hfresh hholder ⟨existing, hplace⟩ with ⟨hbefore, hfile⟩
    rw [hfile]
    exact h.2 hbefore

/-- What holds between two steps. -/
structure Sound (gbk : ByteArray -> Option String) (w : World) : Prop where
  fits : forall {i : Nat} {c : Call}, w.calls[i]? = some c -> Fits gbk w i c
  granted : forall {lease : Nat}, w.holder = some (.caller lease) ->
    lease < w.leases
  alone : forall {i j : Nat} {c d : Call} {lease : Nat} {s t : String},
    w.calls[i]? = some c ->
    w.calls[j]? = some d -> c.leaseRef = some lease ->
      d.leaseRef = some lease -> c.place = .writing s ->
        d.place = .writing t -> i = j

theorem holder_injective {j : Nat} {d : Call} (h : c.holder i = d.holder j) :
    (i = j ∧ c.leaseRef = none) ∨
      exists lease, c.leaseRef = some lease ∧ d.leaseRef = some lease := by
  unfold Call.holder at h
  split at h
  · rename_i hc
    split at h
    · cases h
      exact .inl ⟨rfl, hc⟩
    · cases h
  · rename_i lease hc
    split at h
    · cases h
    · rename_i other hd
      cases h
      exact .inr ⟨lease, hc, hd⟩

theorem Sound.start (file : Option ByteArray) (calls : List (String × Option Nat)) :
    Sound gbk (start file calls) where
  fits := by
    intro i c hc
    rw [Append.start, getElem?_map] at hc
    rcases Option.map_eq_some_iff.mp hc with ⟨call, _, rfl⟩
    trivial
  granted := nofun
  alone := by
    intro i j c d lease s t hc _ _ _ hplace
    rw [Append.start, getElem?_map] at hc
    rcases Option.map_eq_some_iff.mp hc with ⟨call, _, rfl⟩
    cases hplace

/-- While no call holds the lock, the world of the callers changes freely. -/
theorem Sound.of_free {holder : Option Holder} {leases : Nat} (h : Sound gbk w)
    (hfree : forall i, w.holder ≠ some (.call i)) (hle : w.leases ≤ leases)
    (hholder : forall lease, holder = some (.caller lease) ->
      w.leases ≤ lease ∧ lease < leases) :
    Sound gbk { w with holder := holder, leases := leases } where
  fits := by
    intro i c hc
    apply (h.fits hc).of_world
    · unfold Entitled
      split
      · exact fun hheld => absurd hheld (hfree i)
      · exact fun hlt => Nat.lt_of_lt_of_le hlt hle
    intro hheld hplace
    have hentitled := (h.fits hc).entitled (.inr (.inl hplace))
    unfold Entitled at hentitled
    unfold Call.holder at hheld
    split at hentitled
    · exact absurd hentitled (hfree i)
    · rename_i lease hlease
      rw [hlease] at hheld
      exact absurd (hholder lease hheld).1 (Nat.not_le.mpr hentitled)
  granted := fun hheld => (hholder _ hheld).2
  alone := h.alone

theorem Move.others {j : Nat} {d : Call} (h : Sound gbk w)
    (hc : w.calls[i]? = some c) (hmove : Move gbk w i c label w₁ c')
    (hd : w.calls[j]? = some d) (hne : j ≠ i) : Fits gbk w₁ j d := by
  have hrelease : Entitled w i c -> Fits gbk (w.release c) j d := by
    intro hentitled
    unfold Entitled at hentitled
    unfold World.release
    split at hentitled
    · apply (h.fits hd).of_world
      · unfold Entitled
        split
        · intro hheld
          rw [hentitled] at hheld
          cases hheld
          exact absurd rfl hne
        · exact id
      · nofun
    · exact h.fits hd
  have hfits := h.fits hc
  cases hmove with
  | refused | handed | read | failed => exact h.fits hd
  | lock hplace hlease hfree =>
    apply (h.fits hd).of_world
    · unfold Entitled
      split
      · intro hheld
        rw [hfree] at hheld
        cases hheld
      · exact id
    · intro hheld
      unfold Call.holder at hheld
      split at hheld
      · cases hheld
        exact absurd rfl hne
      · cases hheld
  | write hplace hholder =>
    refine (h.fits hd).of_world (fun hentitled => hentitled) ?_
    intro hheld hwriting
    have hsame : c.holder i = d.holder j :=
      Option.some.inj (hholder.symm.trans hheld)
    rcases holder_injective hsame with ⟨heq, _⟩ | ⟨lease, hlc, hld⟩
    · exact absurd heq.symm hne
    · rcases hwriting with ⟨t, ht⟩
      exact absurd (h.alone hc hd hlc hld hplace ht).symm hne
  | missing hplace => exact hrelease (hfits.entitled (.inl hplace))
  | unlock hplace => exact hrelease (hfits.entitled (.inr (.inr hplace)))
  | raised hplace =>
    apply hrelease
    apply hfits.entitled
    rcases hplace with hplace | hplace
    · exact .inl hplace
    · exact .inr (.inl hplace)

/-- The call that took the step fits as well. -/
theorem Move.this (h : Fits gbk w i c)
    (hmove : Move gbk w i c label w₁ c') : Fits gbk w₁ i c' := by
  cases hmove with
  | refused | missing | unlock | failed | raised => trivial
  | lock hplace hlease hfree =>
    show Entitled _ i _
    rw [Entitled, hlease]
  | handed hplace hlease hlt =>
    show Entitled w i _
    rw [Entitled, hlease]
    exact hlt
  | read hplace hfile =>
    exact ⟨h.entitled (.inl hplace), fun _ => congrArg _ hfile⟩
  | @write existing hplace hholder =>
    exact h.entitled (.inr (.inl ⟨existing, hplace⟩))

theorem Move.granted (h : Sound gbk w)
    (hmove : Move gbk w i c label w₁ c') {lease : Nat}
    (hheld : w₁.holder = some (.caller lease)) : lease < w₁.leases := by
  have hrelease : (w.release c).holder = some (.caller lease) ->
      lease < (w.release c).leases := by
    unfold World.release
    split
    · nofun
    · exact h.granted
  cases hmove with
  | lock => cases hheld
  | missing | unlock | raised => exact hrelease hheld
  | _ => exact h.granted hheld

/-- In a calm step no second call under one lease gets a text to write. -/
theorem Move.calm {j : Nat} {d : Call} {lease : Nat}
    {s t : String} (hmove : Move gbk w i c label w₁ c') (hcalm : Calm w label)
    (hc : w.calls[i]? = some c) (hd : w.calls[j]? = some d)
    (hld : d.leaseRef = some lease) (hlc : c'.leaseRef = some lease)
    (hs : d.place = .writing s) : c'.place ≠ .writing t := by
  intro ht
  rw [hmove.call.1] at hlc
  cases hmove with
  | read hplace =>
    refine hcalm i rfl c hc lease hlc j d ?_ hd hld s hs
    rintro rfl
    rw [hd] at hc
    cases hc
    rw [hs] at hplace
    cases hplace
  | _ => cases ht

theorem Sound.step (h : Sound gbk w) (hcalm : Calm w label)
    (hstep : step gbk w label = some w') : Sound gbk w' := by
  rcases step_cases hstep with ⟨hfree, rfl⟩ | ⟨rfl, lease, hheld⟩ |
    ⟨i, c, w₁, c', hc, hmove, rfl⟩
  · apply h.of_free
    · intro i hheld
      rw [hfree] at hheld
      cases hheld
    · exact Nat.le_succ _
    · intro lease hheld
      cases hheld
      exact ⟨Nat.le_refl _, Nat.lt_succ_self _⟩
  · apply h.of_free
    · intro i hcall
      rw [hheld] at hcall
      cases hcall
    · exact Nat.le_refl _
    · nofun
  · constructor
    · intro j d hd
      change (w₁.calls.set i c')[j]? = some d at hd
      rw [hmove.calls] at hd
      rcases getElem?_set_cases hd with ⟨rfl, rfl⟩ | ⟨hne, hd⟩
      · have hfits := hmove.this (h.fits hc)
        exact hfits
      · have hfits := hmove.others h hc hd hne
        exact hfits
    · intro lease hheld
      exact hmove.granted h hheld
    · intro j k d e lease s t hd he hld hle hs ht
      change (w₁.calls.set i c')[j]? = some d at hd
      change (w₁.calls.set i c')[k]? = some e at he
      rw [hmove.calls] at hd he
      rcases getElem?_set_cases hd with ⟨rfl, rfl⟩ | ⟨_, hd'⟩
      · rcases getElem?_set_cases he with ⟨rfl, rfl⟩ | ⟨_, he'⟩
        · rfl
        · exact absurd hs (hmove.calm hcalm hc he' hle hld ht)
      · rcases getElem?_set_cases he with ⟨rfl, rfl⟩ | ⟨_, he'⟩
        · exact absurd ht (hmove.calm hcalm hc hd' hld hle hs)
        · exact h.alone hd' he' hld hle hs ht

/-!
# What one step does to the file
-/

theorem text_setCall (hcalls : w₁.calls = w.calls) (hc : w.calls[i]? = some c)
    (hcontent : c'.content = c.content) (j : Nat) :
    (w₁.setCall i c').text j = w.text j := by
  unfold World.text World.setCall
  rw [hcalls]
  by_cases hj : j = i
  · subst hj
    rw [getElem?_set_of_some hc, hc]
    exact hcontent
  · rw [getElem?_set_ne (Ne.symm hj)]

theorem hasWritten_setCall
    (hcalls : w₁.calls = w.calls) (hc : w.calls[i]? = some c) (j : Nat) :
    (w₁.setCall i c').HasWritten j <->
      (j = i ∧ (c'.place = .written ∨ c'.place = .finished)) ∨
        (j ≠ i ∧ w.HasWritten j) := by
  unfold World.HasWritten World.setCall
  rw [hcalls]
  by_cases hj : j = i
  · subst hj
    rw [getElem?_set_of_some hc]
    simp
  · rw [getElem?_set_ne (Ne.symm hj)]
    simp [hj]

theorem hasWritten_iff (hc : w.calls[i]? = some c) :
    w.HasWritten i <-> c.place = .written ∨ c.place = .finished := by
  unfold World.HasWritten
  rw [hc]
  simp

theorem Move.file (hmove : Move gbk w i c label w₁ c') : (w₁.file = w.file ∧
        (c'.place = .written ∨ c'.place = .finished <->
          c.place = .written ∨ c.place = .finished)) ∨
      exists existing, c.place = .writing existing ∧
        w.holder = some (c.holder i) ∧ c'.place = .written ∧
          w₁.file = some (existing ++ c.content).toUTF8 := by
  have hrelease : (w.release c).file = w.file := by
    unfold World.release
    split <;> rfl
  cases hmove with
  | lock hplace | refused hplace | handed hplace | read hplace | failed hplace =>
    rw [hplace]
    exact .inl ⟨rfl, by simp⟩
  | write hplace hholder => exact .inr ⟨_, hplace, hholder, rfl, rfl⟩
  | missing hplace | unlock hplace =>
    rw [hplace]
    exact .inl ⟨hrelease, by simp⟩
  | raised hplace =>
    refine .inl ⟨hrelease, ?_⟩
    rcases hplace with hplace | ⟨existing, hplace⟩
    · rw [hplace]
      simp
    · rw [hplace]
      simp

theorem step_effect (h : Sound gbk w) (hstep : step gbk w label = some w') :
    (forall i, w'.text i = w.text i) ∧
      ((w'.file = w.file ∧ forall i, w'.HasWritten i <-> w.HasWritten i) ∨
        exists i data, ¬ w.HasWritten i ∧ w.file = some data ∧
          w'.file = some (decodeBytes gbk data ++ w.text i).toUTF8 ∧
            forall j, w'.HasWritten j <-> j = i ∨ w.HasWritten j) := by
  rcases step_cases hstep with ⟨_, rfl⟩ | ⟨rfl, _⟩ | ⟨i, c, w₁, c', hc, hmove, rfl⟩
  · exact ⟨fun _ => rfl, .inl ⟨rfl, fun _ => Iff.rfl⟩⟩
  · exact ⟨fun _ => rfl, .inl ⟨rfl, fun _ => Iff.rfl⟩⟩
  · refine ⟨text_setCall hmove.calls hc hmove.call.2, ?_⟩
    have hwritten : forall j, (w₁.setCall i c').HasWritten j <-> _ :=
      hasWritten_setCall hmove.calls hc
    rcases hmove.file with ⟨hfile, hsame⟩ | ⟨existing, hplace, hholder, hdone, hfile⟩
    · refine .inl ⟨hfile, ?_⟩
      intro j
      rw [hwritten, hsame, ← hasWritten_iff hc]
      by_cases hj : j = i
      · simp [hj]
      · simp [hj]
    · have hfits := h.fits hc
      unfold Fits at hfits
      rw [hplace] at hfits
      rcases Option.map_eq_some_iff.mp (hfits.2 hholder)
        with ⟨data, hdata, rfl⟩
      refine .inr ⟨i, data, ?_, hdata, ?_, ?_⟩
      · rw [hasWritten_iff hc, hplace]
        simp
      · have htext : w.text i = c.content := by
          unfold World.text
          rw [hc]
        rw [htext]
        exact hfile
      · intro j
        rw [hwritten, hdone]
        by_cases hj : j = i
        · simp [hj]
        · simp [hj]

/-!
# Decoding what is UTF-8
-/

variable {data : ByteArray}

theorem toUTF8_decodeBytes (h : data.IsValidUTF8) :
    (decodeBytes gbk data).toUTF8 = data := by
  unfold decodeBytes
  split
  · rename_i hempty
    have hsize : data.size = 0 := by simpa [ByteArray.isEmpty] using hempty
    exact (ByteArray.size_eq_zero_iff.mp hsize).symm
  · rw [String.fromUTF8?, dif_pos h]
    rfl

variable {file : Option ByteArray}

/-- What stands before a text in UTF-8 is UTF-8 when the whole is. -/
theorem isValidUTF8_of_append {text : String}
    (h : (data ++ text.toUTF8).IsValidUTF8) : data.IsValidUTF8 := by
  let whole : String := String.fromUTF8 _ h
  have hbytes : whole.toByteArray = data ++ text.toUTF8 := rfl
  have hend : whole.toByteArray.extract data.size whole.utf8ByteSize =
      text.toUTF8 := by
    rw [hbytes, ← String.size_toByteArray, hbytes, size_append]
    exact extract_append_eq_right rfl rfl
  have hvalid : (String.Pos.Raw.mk data.size).IsValid whole := by
    rw [String.Pos.Raw.isValid_iff_isValidUTF8_extract_utf8ByteSize]
    refine ⟨?_, ?_⟩
    · rw [String.Pos.Raw.le_iff, String.byteIdx_rawEndPos,
        ← String.size_toByteArray, hbytes]
      simp
    · rw [hend]
      exact text.isValidUTF8
  have hfront := hvalid.isValidUTF8_extract_zero
  rw [hbytes, extract_append_eq_left rfl] at hfront
  exact hfront

theorem isValidUTF8_of_appendAll {texts : List String}
    (h : (appendAll data texts).IsValidUTF8) : data.IsValidUTF8 := by
  induction texts generalizing data with
  | nil => exact h
  | cons text texts ih => exact isValidUTF8_of_append (ih h)

theorem appendAll_append (data : ByteArray) (texts : List String) (text : String) :
    appendAll data (texts ++ [text]) = appendAll data texts ++ text.toUTF8 := by
  rw [appendAll, foldl_append]
  rfl

/-!
# What a run leaves
-/

/-- The file as the calls that have written so far left it. -/
def Tracked (file : Option ByteArray) (w : World) : Prop :=
  ((forall i, ¬ w.HasWritten i) ∧ w.file = file) ∨
    ((exists i, w.HasWritten i) ∧ w.bytes.IsValidUTF8 ∧
      ((file.getD ByteArray.empty).IsValidUTF8 -> Appended file w))

theorem Appended.of_same (h : Appended file w)
    (htext : forall i, w'.text i = w.text i) (hfile : w'.file = w.file)
    (hwritten : forall i, w'.HasWritten i <-> w.HasWritten i) :
    Appended file w' := by
  rcases h with ⟨order, hnodup, hmem, hbytes⟩
  refine ⟨order, hnodup, fun i => (hmem i).trans (hwritten i).symm, ?_⟩
  rw [World.bytes, hfile, funext htext]
  exact hbytes

theorem appended_of_none
    (h : forall i, ¬ w.HasWritten i) (hfile : w.file = file) : Appended file w := by
  refine ⟨[], nodup_nil, fun i => ?_, ?_⟩
  · simp [h i]
  · rw [World.bytes, hfile]
    rfl

theorem Tracked.step (hsound : Sound gbk w)
    (h : Tracked file w) (hstep : step gbk w label = some w') : Tracked file w' := by
  rcases step_effect hsound hstep with ⟨htext, ⟨hfile, hwritten⟩ |
    ⟨i, data, hnew, hdata, hfile, hwritten⟩⟩
  · rcases h with ⟨hnone, hold⟩ | ⟨⟨i, hi⟩, hvalid, happended⟩
    · refine .inl ⟨fun i => ?_, hfile.trans hold⟩
      rw [hwritten]
      exact hnone i
    · refine .inr ⟨⟨i, (hwritten i).mpr hi⟩, ?_, fun horig => (happended horig).of_same htext hfile hwritten⟩
      rw [World.bytes, hfile]
      exact hvalid
  · right
    have hbytes : w'.bytes = (decodeBytes gbk data ++ w.text i).toUTF8 := by
      rw [World.bytes, hfile]
      rfl
    refine ⟨⟨i, (hwritten i).mpr (.inl rfl)⟩, ?_, ?_⟩
    · rw [hbytes]
      exact String.isValidUTF8 _
    intro horig
    have hbefore : w.bytes.IsValidUTF8 ∧ Appended file w := by
      rcases h with ⟨hnone, hold⟩ | ⟨_, hvalid, happended⟩
      · refine ⟨?_, appended_of_none hnone hold⟩
        rw [World.bytes, hold]
        exact horig
      · exact ⟨hvalid, happended horig⟩
    rcases hbefore with ⟨hvalid, order, hnodup, hmem, hsum⟩
    refine ⟨order ++ [i], ?_, ?_, ?_⟩
    · apply List.Nodup.append hnodup (nodup_singleton i)
      intro j hj hi
      rw [mem_singleton.mp hi] at hj
      exact hnew ((hmem i).mp hj)
    · intro j
      rw [mem_append, mem_singleton, hmem, hwritten]
      exact or_comm
    · rw [map_append, map_singleton, appendAll_append, htext,
        funext htext, ← hsum, hbytes]
      rw [World.bytes, hdata] at hvalid ⊢
      have hread : (decodeBytes gbk data).toUTF8 = data :=
        toUTF8_decodeBytes hvalid
      rw [String.toUTF8_eq_toByteArray] at hread ⊢
      rw [String.toByteArray_append, hread]
      rfl

/-- No two calls were handed the same lease. -/
def Apart (leases : List (Option Nat)) : Prop :=
  leases.Pairwise fun a b => a = none ∨ a ≠ b

theorem Apart.eq (h : Apart (w.calls.map Call.leaseRef)) {j : Nat} {d : Call}
    {lease : Nat} (hc : w.calls[i]? = some c) (hd : w.calls[j]? = some d)
    (hlc : c.leaseRef = some lease) (hld : d.leaseRef = some lease) : i = j := by
  have hci : (w.calls.map Call.leaseRef)[i]? = some (some lease) := by
    rw [getElem?_map, hc, Option.map_some, hlc]
  have hdj : (w.calls.map Call.leaseRef)[j]? = some (some lease) := by
    rw [getElem?_map, hd, Option.map_some, hld]
  rcases List.getElem?_eq_some_iff.mp hci with ⟨hi, hci⟩
  rcases List.getElem?_eq_some_iff.mp hdj with ⟨hj, hdj⟩
  have hpair := pairwise_iff_getElem.mp h
  rcases Nat.lt_trichotomy i j with hlt | heq | hlt
  · have := hpair i j hi hj hlt
    simp [hci, hdj] at this
  · exact heq
  · have := hpair j i hj hi hlt
    simp [hci, hdj] at this

/-- Calls that are not handed one lease never meet. -/
theorem meets_calm_of_apart
    {calls : List (String × Option Nat)} (h : Apart (calls.map Prod.snd))
    (labels : List Label) : Meets (step gbk) Calm (start file calls) labels := by
  have hkept : forall {w label w'}, Apart (w.calls.map Call.leaseRef) -> True ->
      step gbk w label = some w' -> Apart (w'.calls.map Call.leaseRef) := by
    intro w label w' hw _ hstep
    rcases step_cases hstep with ⟨_, rfl⟩ | ⟨rfl, _⟩ | ⟨i, c, w₁, c', hc, hmove, rfl⟩
    · exact hw
    · exact hw
    · have hsame : (w₁.setCall i c').calls.map Call.leaseRef =
          w.calls.map Call.leaseRef := by
        have hi : (w.calls.map Call.leaseRef)[i]? = some c.leaseRef := by
          rw [getElem?_map, hc]
          rfl
        rcases List.getElem?_eq_some_iff.mp hi with ⟨_, hi⟩
        change (w₁.calls.set i c').map Call.leaseRef = _
        rw [hmove.calls, map_set, hmove.call.1, ← hi, set_getElem_self]
      rw [hsame]
      exact hw
  have hcalm : forall {w : World} {label : Label},
      Apart (w.calls.map Call.leaseRef) -> True -> Calm w label := by
    intro w label hw _ i _ c hc lease hlc j d hne hd hld
    exact absurd (hw.eq hd hc hld hlc) hne
  refine meets_of_inv (step gbk) hkept hcalm ?_
    (meets_true (step gbk) (start file calls) labels)
  rw [start, map_map]
  exact h

/--
After a run whose steps are calm, the file is what it was with the texts of the calls
that have written behind it, if and only if it was UTF-8 or no call has written.
-/
theorem appendFile_appends {file : Option ByteArray}
    {calls : List (String × Option Nat)} {labels : List Label}
    (hrun : run (step gbk) (start file calls) labels = some w)
    (hcalm : Meets (step gbk) Calm (start file calls) labels) :
    Appended file w <->
      (file.getD ByteArray.empty).IsValidUTF8 ∨ forall i, ¬ w.HasWritten i := by
  have hstart : Tracked file (start file calls) := by
    refine .inl ⟨?_, rfl⟩
    rintro i ⟨c, hc, hplace⟩
    rw [start, List.getElem?_map] at hc
    rcases Option.map_eq_some_iff.mp hc with ⟨call, _, rfl⟩
    rcases hplace with hplace | hplace <;> cases hplace
  have hinv : Sound gbk w ∧ Tracked file w := by
    apply run_inv (step gbk) ?_ ⟨Sound.start file calls, hstart⟩ hcalm hrun
    intro s l s' hs hok hst
    exact ⟨hs.1.step hok hst, hs.2.step hs.1 hst⟩
  constructor
  · intro happended
    rcases hinv.2 with ⟨hnone, _⟩ | ⟨_, hvalid, _⟩
    · exact .inr hnone
    · rcases happended with ⟨order, _, _, hbytes⟩
      rw [hbytes] at hvalid
      exact .inl (isValidUTF8_of_appendAll hvalid)
  · intro h
    rcases hinv.2 with ⟨hnone, hfile⟩ | ⟨⟨i, hi⟩, _, happended⟩
    · exact appended_of_none hnone hfile
    · rcases h with horig | hnone
      · exact happended horig
      · exact absurd hi (hnone i)

end Steps

/-- A caller hands its lease to the second call, and the first call takes the
lock when the lease is given back. -/
def handedOver : List Label :=
  [.grant, .lock 1, .read 1, .write 1, .revoke, .lock 0, .unlock 1, .read 0,
    .write 0, .unlock 0]

/-- The file before, which holds the letter é. -/
def letter : ByteArray :=
  ⟨#[0xC3, 0xA9]⟩

/-- What the calls leave. -/
def handedOverEnd : World where
  file :=
    let first := (decodeBytes (fun _ => none) letter ++ "b").toUTF8
    some (decodeBytes (fun _ => none) first ++ "a").toUTF8
  holder := none
  leases := 1
  calls := [⟨"a", none, .finished⟩, ⟨"b", some 0, .finished⟩]

theorem appendFile_appends_handed_over :
    run (step fun _ => none) (start (some letter) [("a", none), ("b", some 0)])
        handedOver = some handedOverEnd ∧
      Appended (some letter) handedOverEnd := by
  have hrun : run (step fun _ => none)
      (start (some letter) [("a", none), ("b", some 0)]) handedOver =
        some handedOverEnd := rfl
  have hapart : Apart ([("a", none), ("b", some 0)].map Prod.snd) := by
    unfold Apart
    decide
  have hvalid : letter.IsValidUTF8 := String.isValidUTF8 "é"
  exact ⟨hrun, (appendFile_appends hrun
    (meets_calm_of_apart hapart handedOver)).mpr (.inl hvalid)⟩

/-- What one call leaves that is not disturbed. -/
def onceThrough : World where
  file := some (decodeBytes (fun _ => none) ⟨#[0xFF]⟩ ++ "a").toUTF8
  holder := none
  leases := 0
  calls := [⟨"a", none, .finished⟩]

/-- A byte that is no UTF-8 is encoded anew by the first append. -/
theorem appendFile_reencodes :
    run (step fun _ => none) (start (some ⟨#[0xFF]⟩) [("a", none)])
        [.lock 0, .read 0, .write 0, .unlock 0] = some onceThrough ∧
      ¬ Appended (some ⟨#[0xFF]⟩) onceThrough := by
  refine ⟨rfl, ?_⟩
  rintro ⟨order, _, _, hbytes⟩
  have hwhole : onceThrough.bytes.IsValidUTF8 := String.isValidUTF8 _
  rw [hbytes] at hwhole
  have hfirst := (isValidUTF8_of_appendAll hwhole).isUTF8FirstByte_getElem_zero
    (by decide)
  exact absurd hfirst (by decide)

end Append
end OpenViking
