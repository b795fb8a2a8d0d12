import OpenViking.Access.Shortening
import OpenViking.Common.Attempt

/-!
# Admitted URIs

What the storage parts of a URI can be, once a caller without the root role has
been given access to it.
-/

namespace OpenViking
namespace Access

open Paths Segments List

/-!
# The namespace rules
-/

variable {cc : CharClass} {target : ResolvedNamespace}

theorem resolveUserUri_ok {parts : List Str}
    (h : resolveUserUri cc parts = .ok target) :
    target.scope = "user".toList ∧
      forall scope owner rest, parts = scope :: owner :: rest ->
        target.ownerUserId = some owner ∧ IsUserId owner := by
  unfold resolveUserUri at h
  split at h
  · split at h
    · cases h
    rename_i hvalid
    dsimp only at h
    split at h
    · cases h
      refine ⟨rfl, fun scope owner rest heq => ?_⟩
      cases heq
      exact ⟨rfl, hvalid⟩
    · rcases bind_ok h with ⟨_, _, hret⟩
      cases hret
      refine ⟨rfl, fun scope owner rest heq => ?_⟩
      cases heq
      exact ⟨rfl, hvalid⟩
  · rename_i hshort
    cases h
    exact ⟨rfl, fun scope owner rest heq => absurd heq (hshort _ _ _)⟩

variable {uri : Str}

theorem resolveUri_ok
    (h : resolveUri cc uri = .ok target) :
    exists parts, uriParts uri = .ok parts ∧
      (forall scope rest, parts = scope :: rest ->
        scope ≠ "session".toList ∧ target.scope = scope ∧
        (scope = "user".toList -> resolveUserUri cc parts = .ok target) ∧
        (scope ≠ "user".toList -> target.ownerUserId = none)) ∧
      (parts = [] -> target.ownerUserId = none) := by
  unfold resolveUri at h
  rcases bind_ok h with ⟨parsed, _, h⟩
  rcases bind_ok h with ⟨parts, hparts, h⟩
  refine ⟨parts, hparts, ?_⟩
  cases parts with
  | nil =>
    cases h
    exact ⟨fun scope rest heq => (nomatch heq), fun _ => rfl⟩
  | cons scope rest =>
    refine ⟨?_, nofun⟩
    intro scope' rest' heq
    cases heq
    dsimp only at h
    split at h
    · rename_i huser
      refine ⟨?_, ?_, fun _ => h, fun hne => absurd huser hne⟩
      · rw [huser]
        decide
      · rw [(resolveUserUri_ok h).1, huser]
    · rename_i huser
      split at h
      · rename_i hagent
        cases h
        refine ⟨?_, rfl, fun heq => absurd heq huser, fun _ => rfl⟩
        rw [hagent]
        decide
      · split at h
        · cases h
        · split at h
          · cases h
          · rename_i hsession
            cases h
            exact ⟨hsession, rfl, fun heq => absurd heq huser, fun _ => rfl⟩

variable {ctx : RequestContext}

theorem namespaceIsAccessible_ok (hrole : ctx.role ≠ .root)
    (h : namespaceIsAccessible cc uri ctx = .ok true) :
    exists target, resolveUri cc uri = .ok target ∧
      (target.scope = "user".toList ->
        forall owner, target.ownerUserId = some owner ->
          owner = [] ∨ owner = ctx.userId) := by
  unfold namespaceIsAccessible at h
  rw [if_neg hrole] at h
  split at h
  · cases h
  · cases h
  · rename_i target hresolve
    refine ⟨target, hresolve, ?_⟩
    intro huser owner howner
    have hopen : target.scope ∉ openScopes := by
      rw [huser]
      decide
    have hupload : target.scope ≠ "upload".toList := by
      rw [huser]
      decide
    rw [if_neg hopen, if_neg hupload, if_pos huser, howner] at h
    simpa using h

/-!
# Components that name the caller
-/

/-- The namespace rules read the component as the caller's id. -/
def NamesCaller (userId c : Str) : Prop :=
  c = userId ∨ exists rest, c = userId ++ '?' :: rest

/-- The namespace rules read the component as the caller's id, or drop it. -/
def Admissible (userId c : Str) : Prop :=
  NamesCaller userId c ∨ exists rest, c = '?' :: rest

variable {rest : List Str}

/-- Where the namespace parts of a URI begin, given its storage parts. -/
theorem uriParts_of_storage {uri scope : Str}
    (h : safeUriParts cc uri = .ok (scope :: rest)) (hscope : '?' ∉ scope) :
    exists tail, uriParts uri = .ok (scope :: tail) ∧
      forall second more, rest = second :: more ->
        (exists tail', tail = second :: tail') ∨
        (exists t x, second = t ++ '?' :: x ∧
          tail = if t = [] then [] else [t]) := by
  rcases parts_agree h with hsame | ⟨front, t, x, after, hparts, hup, _, _⟩
  · exact ⟨rest, hsame, fun second more hrest => .inl ⟨more, hrest⟩⟩
  cases front with
  | nil =>
    have hhead := congrArg head? hparts
    have hmark : scope = t ++ '?' :: x := by simpa using hhead
    exact absurd (by rw [hmark]; simp) hscope
  | cons first front =>
    have hcons : scope = first ∧ rest = front ++ (t ++ '?' :: x) :: after := by
      simpa using hparts
    refine ⟨front ++ if t = [] then [] else [t], ?_, ?_⟩
    · rw [hup, hcons.1]
      rfl
    intro second more hrest
    have hhead := congrArg head? (hrest.symm.trans hcons.2)
    cases front with
    | nil =>
      have hsecond : second = t ++ '?' :: x := by simpa using hhead
      exact .inr ⟨t, x, hsecond, rfl⟩
    | cons next front =>
      have hsecond : second = next := by simpa using hhead
      exact .inl ⟨front ++ if t = [] then [] else [t], by
        rw [hsecond]
        rfl⟩

theorem owner_of_storage
    (h : safeUriParts cc uri = .ok ("user".toList :: rest))
    (hresolve : resolveUri cc uri = .ok target) :
    target.scope = "user".toList ∧
      forall second more, rest = second :: more ->
        (exists owner, target.ownerUserId = some owner ∧ IsUserId owner ∧
          NamesCaller owner second) ∨
        (target.ownerUserId = none ∧ exists x, second = '?' :: x) := by
  rcases uriParts_of_storage h (by decide) with ⟨tail, hparts, htail⟩
  rcases resolveUri_ok hresolve with ⟨parts, hparts', hcons, _⟩
  cases hparts.symm.trans hparts'
  rcases hcons _ _ rfl with ⟨_, hscope, huser, _⟩
  rcases resolveUserUri_ok (huser rfl) with ⟨_, howner⟩
  refine ⟨hscope, ?_⟩
  intro second more hrest
  rcases htail second more hrest with ⟨tail', htail⟩ | ⟨t, x, hsecond, htail⟩
  · have hown := howner _ _ _ (by rw [htail])
    exact .inl ⟨second, hown.1, hown.2, .inl rfl⟩
  by_cases ht : t = []
  · rw [if_pos ht] at htail
    rw [htail] at huser
    have hnone : target.ownerUserId = none := by
      have hres := huser rfl
      unfold resolveUserUri at hres
      cases hres
      rfl
    exact .inr ⟨hnone, x, by rw [hsecond, ht]; rfl⟩
  · rw [if_neg ht] at htail
    have hown := howner _ _ _ (by rw [htail])
    exact .inl ⟨t, hown.1, hown.2, .inr ⟨x, hsecond⟩⟩

/-!
# What access lets through
-/

/-- The storage parts that a caller without the root role can be let through
with. -/
structure Admitted (fs : VikingFS) (ctx : RequestContext) (parts : List Str) :
    Prop where
  closedScopes : forall scope rest, parts = scope :: rest ->
    scope ≠ "upload".toList ∧ scope ≠ "_system".toList ∧
      scope ≠ "session".toList
  watch : forall name, parts = ["resources".toList, name] ->
    name ∉ watchTaskControlNames
  temp : forall second rest, parts = "temp".toList :: second :: rest ->
    second = ctx.userId ∨
      looksLikeLegacyTempLeaf fs.charClass second = true
  user : forall second rest, parts = "user".toList :: second :: rest ->
    Admissible ctx.userId second

private theorem not_watch {name : Str}
    (hparts : safeUriParts cc uri = .ok ["resources".toList, name])
    (hwatch : isWatchTaskControlUri uri = .ok false) :
    name ∉ watchTaskControlNames := by
  intro hname
  have hmark : '?' ∉ name := by
    have hall : forall w, w ∈ watchTaskControlNames -> '?' ∉ w := by decide
    exact hall name hname
  have hsame : uriParts uri = .ok ["resources".toList, name] := by
    rcases parts_agree hparts with hsame | ⟨front, t, x, after, heq, _⟩
    · exact hsame
    have hmem : t ++ '?' :: x ∈ ["resources".toList, name] := by
      rw [heq]
      simp
    have hin : '?' ∈ t ++ '?' :: x := by simp
    rcases mem_cons.1 hmem with hmem | hmem
    · rw [hmem] at hin
      exact absurd hin (by decide)
    · rw [mem_singleton.1 hmem] at hin
      exact absurd hin hmark
  unfold isWatchTaskControlUri at hwatch
  rw [hsame] at hwatch
  have hfalse : Except.ok (ε := AccessError)
      (decide ("resources".toList = "resources".toList)
        && decide (name ∈ watchTaskControlNames)) = .ok false := hwatch
  simp [hname] at hfalse

private theorem legacy_leaf {scope second : Str}
    (h : isLegacyTempUriParts cc (scope :: second :: rest) = true) :
    looksLikeLegacyTempLeaf cc second = true := by
  unfold isLegacyTempUriParts at h
  cases rest with
  | nil =>
    simp only [Bool.and_eq_true] at h
    exact h.2
  | cons third rest =>
    simp only [Bool.and_eq_true] at h
    exact h.1.2

variable {fs : VikingFS}

private theorem namespace_admitted {scope : Str}
    (hrole : ctx.role ≠ .root)
    (hparts : safeUriParts fs.charClass uri = .ok (scope :: rest))
    (hok : namespaceIsAccessible fs.charClass uri ctx = .ok true) :
    scope ≠ "session".toList ∧
      (scope = "user".toList -> forall second more, rest = second :: more ->
        Admissible ctx.userId second) := by
  rcases namespaceIsAccessible_ok hrole hok with ⟨target, hresolve, howner⟩
  constructor
  · intro hsession
    subst hsession
    rcases uriParts_of_storage hparts (by decide) with ⟨tail, hup, _⟩
    rcases resolveUri_ok hresolve with ⟨parts', hup', hcons, _⟩
    cases hup.symm.trans hup'
    exact (hcons _ _ rfl).1 rfl
  · intro huser second more hrest
    subst huser
    rcases owner_of_storage hparts hresolve with ⟨hscope, hsecond⟩
    rcases hsecond second more hrest with ⟨owner, heq, hid, hnames⟩ | ⟨_, hmark⟩
    · rcases howner hscope owner heq with hnil | hcaller
      · exact absurd hnil (isUserId_iff.1 hid).1
      · rw [hcaller] at hnames
        exact .inl hnames
    · exact .inr hmark

theorem isAccessible_admitted
    (hrole : ctx.role ≠ .root) (h : isAccessible fs uri ctx = .ok true) :
    exists parts, safeUriParts fs.charClass uri = .ok parts ∧
      Admitted fs ctx parts := by
  unfold isAccessible at h
  rcases bind_ok h with ⟨parts, hparts, h⟩
  refine ⟨parts, hparts, ?_⟩
  rw [if_neg hrole] at h
  rcases bind_ok h with ⟨hidden, _, h⟩
  split at h
  · cases h
  cases parts with
  | nil =>
    exact ⟨fun _ _ heq => (nomatch heq), fun _ heq => (nomatch heq),
      fun _ _ heq => (nomatch heq), fun _ _ heq => (nomatch heq)⟩
  | cons scope rest =>
    dsimp only at h
    rcases bind_ok h with ⟨watched, hwatch, h⟩
    split at h
    · cases h
    rename_i hshown
    have hwatched : watched = false := by simpa using hshown
    rw [hwatched] at hwatch
    split at h
    · rename_i hscope
      subst hscope
      refine ⟨?_, ?_, ?_, ?_⟩
      · intro scope' rest' heq
        rw [← (cons.inj heq).1]
        decide
      · intro name heq
        rw [heq] at hparts
        exact not_watch hparts hwatch
      · intro second more heq
        exact absurd (cons.inj heq).1 (by decide)
      · intro second more heq
        exact absurd (cons.inj heq).1 (by decide)
    · rename_i hresources
      split at h
      · rename_i hscope
        subst hscope
        refine ⟨?_, ?_, ?_, ?_⟩
        · intro scope' rest' heq
          rw [← (cons.inj heq).1]
          decide
        · intro name heq
          exact absurd (cons.inj heq).1 (by decide)
        · intro second more heq
          rw [(cons.inj heq).2] at h
          dsimp only at h
          split at h
          · rename_i hown
            exact .inl hown
          · have hlegacy := Except.ok.inj h
            exact .inr (legacy_leaf hlegacy)
        · intro second more heq
          exact absurd (cons.inj heq).1 (by decide)
      · rename_i htemp
        split at h
        · cases h
        rename_i hupload
        split at h
        · cases h
        rename_i hsystem
        have hclosed : scope ≠ "session".toList ∧
            (scope = "user".toList -> forall second more, rest = second :: more ->
                Admissible ctx.userId second) := by
          split at h
          · rename_i hagent
            rw [hagent]
            exact ⟨by decide, fun heq => absurd heq (by decide)⟩
          · exact namespace_admitted hrole hparts h
        refine ⟨?_, ?_, ?_, ?_⟩
        · intro scope' rest' heq
          rw [← (cons.inj heq).1]
          exact ⟨hupload, hsystem, hclosed.1⟩
        · intro name heq
          exact absurd (cons.inj heq).1 hresources
        · intro second more heq
          exact absurd (cons.inj heq).1 htemp
        · intro second more heq
          exact hclosed.2 (cons.inj heq).1 second more (cons.inj heq).2

/-!
# The three guards
-/

inductive Guard where
  | access
  | mutableAccess
  | deleteAccess
deriving DecidableEq

def Guard.ensure (guard : Guard) (fs : VikingFS) (uri : Str)
    (ctx : RequestContext) : Except AccessError Unit :=
  match guard with
  | .access => ensureAccess fs uri ctx
  | .mutableAccess => ensureMutableAccess fs uri ctx
  | .deleteAccess => ensureDeleteAccess fs uri ctx

theorem ensureAccess_ok
    (h : ensureAccess fs uri ctx = .ok ()) :
    isAccessible fs uri ctx = .ok true := by
  unfold ensureAccess at h
  rcases bind_ok h with ⟨visible, hvisible, h⟩
  split at h
  · rename_i htrue
    rw [hvisible, htrue]
  · cases h

theorem ensureUnhidden_ok
    (h : ensureUnhidden fs uri ctx = .ok ()) :
    ensureAccess fs uri ctx = .ok () := by
  unfold ensureUnhidden at h
  rcases bind_ok h with ⟨_, haccess, _⟩
  exact haccess

theorem Guard.accessible {guard : Guard} (h : guard.ensure fs uri ctx = .ok ()) :
    isAccessible fs uri ctx = .ok true := by
  cases guard with
  | access => exact ensureAccess_ok h
  | mutableAccess =>
    rcases bind_ok h with ⟨_, hunhidden, _⟩
    exact ensureAccess_ok (ensureUnhidden_ok hunhidden)
  | deleteAccess =>
    rcases bind_ok h with ⟨_, hunhidden, _⟩
    exact ensureAccess_ok (ensureUnhidden_ok hunhidden)

theorem deleteAccess_ok
    {parts : List Str} (hrole : ctx.role ≠ .root)
    (hparts : safeUriParts fs.charClass uri = .ok parts)
    (h : ensureDeleteAccess fs uri ctx = .ok ()) :
    parts ≠ [] ∧ parts ≠ ["resources".toList] := by
  have hraw : rawParts uri = parts := by
    rw [rawParts, segments_strip, (safeUriParts_ok hparts).2.1]
  rcases bind_ok h with ⟨_, _, h⟩
  rcases bind_ok h with ⟨_, hsupported, h⟩
  rcases bind_ok h with ⟨canonical, hcanonical, h⟩
  cases hparts.symm.trans hcanonical
  constructor
  · intro hnil
    unfold ensureSupportedDeleteNamespace at hsupported
    dsimp only at hsupported
    rw [if_pos (hraw.trans hnil)] at hsupported
    cases hsupported
  · intro hresources
    have hroot : isNamespaceRoot parts = true := by
      rw [hresources]
      decide
    rw [if_pos ⟨hrole, hroot⟩] at h
    cases h

end Access
end OpenViking
