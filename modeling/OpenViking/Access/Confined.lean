import OpenViking.Access.Admitted

/-!
# Confinement

Where the storage path of an accepted URI lies.  The path stays in the caller's
account and out of the protected areas.  It stays out of the areas of other
users as long as shortening and the old temporary names leave the caller's own
name in place.
-/

namespace OpenViking
namespace Access

open Paths Segments List

/-!
# Requests
-/

structure Request where
  uri : Str
  ctx : RequestContext
  guard : Guard

/-- A guard has let the request of a caller without the root role through. -/
def Request.Accepted (fs : VikingFS) (r : Request) : Prop :=
  r.ctx.role ≠ .root ∧ r.guard.ensure fs r.uri r.ctx = .ok ()

/-!
# Areas
-/

def accountPath (accountId : Str) (parts : List Str) : Str :=
  accountRoot accountId ++ rooted '/' parts

/-- The scopes that hold one private directory for each user. -/
def privateScopes : List Str :=
  ["user".toList, "temp".toList]

def OtherUser (userId other : Str) : Prop :=
  IsUserId other ∧ other ≠ userId

instance (userId other : Str) : Decidable (OtherUser userId other) :=
  inferInstanceAs (Decidable (_ ∧ _))

variable (ctx : RequestContext)

/-- The path is in the private subtree of a user other than the caller. -/
def InsideOther (path : Str) : Prop :=
  exists scope other, scope ∈ privateScopes ∧ OtherUser ctx.userId other ∧
    Inside '/' (accountPath ctx.accountId [scope, other]) path

/-- The directories that only the system uses. -/
def systemDirs (accountId : Str) : List Str :=
  [accountPath accountId ["upload".toList],
    accountPath accountId ["_system".toList]]

def watchFiles (accountId : Str) : List Str :=
  watchTaskControlNames.map (fun name =>
    accountPath accountId ["resources".toList, name])

def Protected (accountId path : Str) : Prop :=
  (exists dir, dir ∈ systemDirs accountId ∧ Inside '/' dir path) ∨
    path ∈ watchFiles accountId

/-- Removing the path would remove a protected area. -/
def AboveProtected (accountId path : Str) : Prop :=
  exists area, area ∈ systemDirs accountId ++ watchFiles accountId ∧
    Inside '/' path area

structure Confined (r : Request) (path : Str) : Prop where
  inAccount : Inside '/' (accountRoot r.ctx.accountId) path
  noTraversal : forall w, w ∈ segments '/' path ->
    w ≠ ".".toList ∧ w ≠ "..".toList
  notOther : ¬ InsideOther r.ctx path
  notProtected : r.guard ≠ .access -> ¬ Protected r.ctx.accountId path
  notAbove : r.guard = .deleteAccess -> ¬ AboveProtected r.ctx.accountId path

/-- The owner of a URI: the user of its namespace, or the caller in the caller's
own temporary area. -/
def uriOwner (fs : VikingFS) (r : Request) : Option (Str × Str) :=
  match safeUriParts fs.charClass r.uri with
  | .ok (scope :: second :: _) =>
    if scope = "temp".toList ∧ second = r.ctx.userId then
      some (r.ctx.accountId, second)
    else
      (ownerUserIdForUri fs.charClass r.uri).map (fun owner =>
        (r.ctx.accountId, owner))
  | _ => none

/-- Two requests are confined, and do not meet if their URIs have two owners. -/
def ConfinedPair (fs : VikingFS) (r₁ r₂ : Request) : Prop :=
  exists path₁ path₂,
    uriToPath fs r₁.uri r₁.ctx = .ok path₁ ∧
    uriToPath fs r₂.uri r₂.ctx = .ok path₂ ∧
    Confined r₁ path₁ ∧ Confined r₂ path₂ ∧
    forall owner₁ owner₂, uriOwner fs r₁ = some owner₁ ->
      uriOwner fs r₂ = some owner₂ -> owner₁ ≠ owner₂ -> path₁ ≠ path₂

/-- The component is short enough to be stored as it is, or is the caller's id
with a query after it, whose shortened form is not the id of another user. -/
def KeepsUser (digest : Digest) (userId c : Str) : Prop :=
  utf8Length c ≤ 255 ∨
    (c ≠ userId ∧ ¬ OtherUser userId (stored digest c))

/-- A component of the temporary scope is the caller's id, short enough to be
stored as it is, or is not the id of any user. -/
def KeepsTemp (userId c : Str) : Prop :=
  (c = userId -> utf8Length c ≤ 255) ∧ (c ≠ userId -> ¬ IsUserId c)

def KeepsName (fs : VikingFS) (r : Request) : Prop :=
  forall scope second rest,
    safeUriParts fs.charClass r.uri = .ok (scope :: second :: rest) ->
      (scope = "user".toList -> KeepsUser fs.digest r.ctx.userId second) ∧
      (scope = "temp".toList -> KeepsTemp r.ctx.userId second)

/-!
# Storage paths by components
-/

theorem validateIdentifierPart_none {s n m : Str}
    (h : validateIdentifierPart s n = none) :
    validateIdentifierPart s m = none := by
  unfold validateIdentifierPart at h ⊢
  split at h
  · cases h
  split at h
  · cases h
  · split at h
    · cases h
    · split at h
      · cases h
      · rename_i hne hdots hmatch hcount
        rw [if_neg hne, if_neg hdots, if_neg hmatch, if_neg hcount]

theorem accountId_isUserId : IsUserId ctx.accountId := by
  have hvalid := ctx.user.validAccount
  unfold validateAccountId at hvalid
  split at hvalid
  · cases hvalid
  · rename_i hpart
    exact validateIdentifierPart_none hpart

theorem userId_isUserId : IsUserId ctx.userId :=
  ctx.user.validUser

theorem IsUserId.piece {s : Str} (h : IsUserId s) : IsPiece '/' s := by
  refine ⟨(isUserId_iff.1 h).1, fun hmem => ?_⟩
  rcases h.char_or_newline '/' hmem with hc | hc
  · exact absurd hc (by decide)
  · exact absurd hc (by decide)

theorem accountPath_eq (accountId : Str) (parts : List Str) :
    accountPath accountId parts
      = rooted '/' ("local".toList :: accountId :: parts) := by
  rw [rooted_cons, rooted_cons]
  rfl

theorem joinSlash_cons (part : Str) (parts : List Str) :
    '/' :: joinSlash (part :: parts) = rooted '/' (part :: parts) := by
  induction parts generalizing part with
  | nil => simp [joinSlash, intercalate, rooted]
  | cons next parts ih =>
    have hnext := ih next
    rw [rooted_cons, ← hnext]
    simp [joinSlash, intercalate]

variable {parts : List Str} {fs : VikingFS}

theorem uriToPath_ok {uri : Str} {ctx : RequestContext}
    (hparts : safeUriParts fs.charClass uri = .ok parts)
    (h : Admitted fs ctx parts) :
    uriToPath fs uri ctx
      = .ok (accountPath ctx.accountId (parts.map (stored fs.digest))) := by
  unfold uriToPath
  rw [hparts]
  show (if _ then _ else _) = _
  cases parts with
  | nil =>
    simp [accountPath, rooted]
    rfl
  | cons scope rest =>
    have hsession : (scope :: rest).head? ≠ some "session".toList := by
      intro heq
      exact (h.closedScopes scope rest rfl).2.2 (by simpa using heq)
    rw [if_neg hsession, if_neg (by simp)]
    dsimp only
    rw [map_cons, joinSlash_cons]
    rfl

theorem stored_pieces {uri : Str}
    (h : safeUriParts fs.charClass uri = .ok parts) :
    forall w, w ∈ parts.map (stored fs.digest) -> IsPiece '/' w := by
  intro w hw
  rcases mem_map.1 hw with ⟨c, hc, rfl⟩
  exact stored_piece _ (safeUriParts_pieces h c hc)

theorem local_pieces (h : forall w, w ∈ parts -> IsPiece '/' w) :
    forall w, w ∈ "local".toList :: ctx.accountId :: parts -> IsPiece '/' w := by
  intro w hw
  rcases mem_cons.1 hw with hw | hw
  · rw [hw]
    exact ⟨by decide, by decide⟩
  · rcases mem_cons.1 hw with hw | hw
    · rw [hw]
      exact (accountId_isUserId ctx).piece
    · exact h w hw

theorem inside_accountPath_iff {dir path : List Str}
    (hdir : forall w, w ∈ dir -> IsPiece '/' w)
    (hpath : forall w, w ∈ path -> IsPiece '/' w) :
    Inside '/' (accountPath ctx.accountId dir) (accountPath ctx.accountId path)
      <-> dir <+: path := by
  rw [accountPath_eq, accountPath_eq,
    inside_rooted_iff (local_pieces ctx hdir) (local_pieces ctx hpath),
    prefix_cons_inj, prefix_cons_inj]

theorem accountPath_inj {ctx₁ ctx₂ : RequestContext} {parts₁ parts₂ : List Str}
    (h₁ : forall w, w ∈ parts₁ -> IsPiece '/' w)
    (h₂ : forall w, w ∈ parts₂ -> IsPiece '/' w)
    (h : accountPath ctx₁.accountId parts₁ = accountPath ctx₂.accountId parts₂) :
    ctx₁.accountId = ctx₂.accountId ∧ parts₁ = parts₂ := by
  rw [accountPath_eq, accountPath_eq] at h
  have heq := rooted_injective (local_pieces ctx₁ h₁) (local_pieces ctx₂ h₂) h
  have htail := (cons.inj heq).2
  exact ⟨(cons.inj htail).1, (cons.inj htail).2⟩

/-!
# Private areas
-/

theorem legacy_leaf_short {cc : CharClass} {s : Str}
    (h : looksLikeLegacyTempLeaf cc s = true) : utf8Length s ≤ 64 := by
  have hlength : s.length ≤ 16 := by
    unfold looksLikeLegacyTempLeaf at h
    dsimp only at h
    split at h
    · simp only [Bool.and_eq_true, decide_eq_true_eq, length_dropLast] at h
      omega
    · simp only [Bool.and_eq_true, decide_eq_true_eq] at h
      omega
  have := utf8Length_le s
  omega

theorem stored_self_other (digest : Digest) {u : Str} (hu : IsUserId u)
    (hlong : 255 < utf8Length u) : OtherUser u (stored digest u) := by
  rcases stored_long digest hlong with ⟨kept, lost, heq, hlost, hstored, _, _⟩
  constructor
  · rw [hstored]
    refine isUserId_hashed digest hu heq (fun hnew => ?_)
    rcases append_of_mem hnew with ⟨front, back, hkept⟩
    have hsplit : u = front ++ '\n' :: (back ++ lost) := by
      rw [heq, hkept]
      simp
    have hnil := hu.newline_last hsplit
    exact hlost (append_eq_nil_iff.1 hnil).2
  · intro hself
    have := utf8Length_stored_le digest u
    rw [hself] at this
    omega

theorem keepsUser_iff (digest : Digest) {u c : Str} (hu : IsUserId u)
    (hc : Admissible u c) :
    KeepsUser digest u c <-> ¬ OtherUser u (stored digest c) := by
  constructor
  · intro h hother
    rcases h with hshort | ⟨_, hnot⟩
    · rw [stored_short hshort] at hother
      rcases hc with (hself | ⟨x, hmark⟩) | ⟨x, hmark⟩
      · exact hother.2 hself
      · exact hother.1.not_mark (by rw [hmark]; simp)
      · exact hother.1.not_mark (by rw [hmark]; simp)
    · exact hnot hother
  · intro h
    by_cases hshort : utf8Length c ≤ 255
    · exact .inl hshort
    · refine .inr ⟨fun hself => ?_, h⟩
      rw [hself] at h hshort
      exact h (stored_self_other digest hu (Nat.lt_of_not_le hshort))

theorem keepsTemp_iff {cc : CharClass} (digest : Digest) {u c : Str}
    (hu : IsUserId u) (hc : c = u ∨ looksLikeLegacyTempLeaf cc c = true) :
    KeepsTemp u c <-> ¬ OtherUser u (stored digest c) := by
  by_cases hself : c = u
  · subst hself
    constructor
    · intro h hother
      rw [stored_short (h.1 rfl)] at hother
      exact hother.2 rfl
    · intro h
      refine ⟨fun _ => ?_, fun hne => absurd rfl hne⟩
      by_contra hlong
      exact h (stored_self_other digest hu (Nat.lt_of_not_le hlong))
  · have hlegacy : looksLikeLegacyTempLeaf cc c = true := by
      rcases hc with hc | hc
      · exact absurd hc hself
      · exact hc
    have hstored : stored digest c = c :=
      stored_short (Nat.le_trans (legacy_leaf_short hlegacy) (by decide))
    rw [hstored]
    constructor
    · intro h hother
      exact h.2 hself hother.1
    · intro h
      exact ⟨fun heq => absurd heq hself, fun _ hid => h ⟨hid, hself⟩⟩

theorem scope_piece {scope : Str} (h : scope ∈ privateScopes) :
    IsPiece '/' scope ∧ utf8Length scope ≤ 251 := by
  have hall : forall w, w ∈ privateScopes ->
      (w ≠ [] ∧ '/' ∉ w) ∧ utf8Length w ≤ 251 := by decide
  exact hall scope h

theorem insideOther_iff {uri : Str} {ctx : RequestContext}
    (hparts : safeUriParts fs.charClass uri = .ok parts) :
    InsideOther ctx (accountPath ctx.accountId (parts.map (stored fs.digest)))
      <-> exists scope second rest, parts = scope :: second :: rest ∧
        scope ∈ privateScopes ∧ OtherUser ctx.userId (stored fs.digest second) := by
  constructor
  · intro h
    rcases h with ⟨scope, other, hscope, hother, hinside⟩
    have hdir : forall w, w ∈ [scope, other] -> IsPiece '/' w := by
      intro w hw
      rcases mem_cons.1 hw with hw | hw
      · rw [hw]
        exact (scope_piece hscope).1
      · rw [mem_singleton.1 hw]
        exact hother.1.piece
    rcases (inside_accountPath_iff ctx hdir (stored_pieces hparts)).1 hinside with
      ⟨rest, hrest⟩
    cases parts with
    | nil => exact absurd hrest (by simp)
    | cons first parts =>
      cases parts with
      | nil => exact absurd hrest (by simp)
      | cons second more =>
        rw [map_cons, map_cons] at hrest
        have hfirst := (cons.inj hrest).1
        have hsecond := (cons.inj (cons.inj hrest).2).1
        have hname := (stored_eq_iff (scope_piece hscope).2).1 hfirst.symm
        refine ⟨first, second, more, rfl, ?_, ?_⟩
        · rw [hname]
          exact hscope
        · rw [← hsecond]
          exact hother
  · intro h
    rcases h with ⟨scope, second, rest, heq, hscope, hother⟩
    have hfirst : stored fs.digest scope = scope :=
      stored_short (Nat.le_trans (scope_piece hscope).2 (by decide))
    refine ⟨scope, stored fs.digest second, hscope, hother, ?_⟩
    have hpieces := stored_pieces hparts
    rw [heq, map_cons, map_cons, hfirst] at hpieces ⊢
    rw [inside_accountPath_iff ctx _ hpieces]
    · exact ⟨rest.map (stored fs.digest), rfl⟩
    · intro w hw
      exact hpieces w (by
        rcases mem_cons.1 hw with hw | hw
        · simp [hw]
        · simp [mem_singleton.1 hw])

/-- An admitted URI stays out of the areas of other users exactly if it keeps
the name of its owner. -/
theorem notOther_iff {r : Request}
    (hparts : safeUriParts fs.charClass r.uri = .ok parts)
    (h : Admitted fs r.ctx parts) :
    ¬ InsideOther r.ctx
        (accountPath r.ctx.accountId (parts.map (stored fs.digest)))
      <-> KeepsName fs r := by
  have hu := userId_isUserId r.ctx
  rw [insideOther_iff hparts]
  constructor
  · intro hnot scope second rest heq
    cases hparts.symm.trans heq
    constructor
    · intro hscope
      subst hscope
      refine (keepsUser_iff _ hu (h.user second rest rfl)).2 (fun hother => ?_)
      exact hnot ⟨_, second, rest, rfl, by decide, hother⟩
    · intro hscope
      subst hscope
      refine (keepsTemp_iff fs.digest hu (h.temp second rest rfl)).2
        (fun hother => ?_)
      exact hnot ⟨_, second, rest, rfl, by decide, hother⟩
  · intro hkeeps hinside
    rcases hinside with ⟨scope, second, rest, heq, hscope, hother⟩
    subst heq
    have hk := hkeeps scope second rest hparts
    rcases mem_cons.1 hscope with hscope | hscope
    · subst hscope
      exact (keepsUser_iff _ hu (h.user second rest rfl)).1 (hk.1 rfl) hother
    · have hscope := mem_singleton.1 hscope
      subst hscope
      exact (keepsTemp_iff fs.digest hu (h.temp second rest rfl)).1 (hk.2 rfl)
        hother

end Access
end OpenViking
