import OpenViking.OAuth.Flows

/-!
# What a step keeps

Rows only lose what they are good for, and a request that has minted, been issued or
been authorized stays so.
-/

namespace OpenViking
namespace OAuth

open Interleaving List

/-!
# Rows
-/

def ComesFrom {row : Type} (keep : row -> row -> Prop) (new : row -> Prop)
    (rows rows' : List row) : Prop :=
  forall r, r ∈ rows' -> (exists old, old ∈ rows ∧ keep old r) ∨ new r

structure CodeRow.Keeps (now : Nat) (old row : CodeRow) : Prop where
  code : row.code = old.code
  grant : row.grant = old.grant
  createdAt : row.createdAt = old.createdAt
  usable : old.usable now = false -> row.usable now = false

structure RefreshRow.Keeps (now : Nat) (old row : RefreshRow) : Prop where
  token : row.token = old.token
  grant : row.grant = old.grant
  createdAt : row.createdAt = old.createdAt
  active : old.active now = false -> row.active now = false

structure AccessRow.Keeps (now : Nat) (old row : AccessRow) : Prop where
  token : row.token = old.token
  grant : row.grant = old.grant
  createdAt : row.createdAt = old.createdAt
  valid : old.valid now = false -> row.valid now = false

section Rows

variable {row : Type} {keep : row -> row -> Prop} {new : row -> Prop}
  {rows : List row}

section

variable (h : forall r, keep r r)

include h

theorem ComesFrom.refl : ComesFrom keep new rows rows :=
  fun r hr => .inl ⟨r, hr, h r⟩

theorem ComesFrom.deleteWhere (selected : row -> Bool) :
    ComesFrom keep new rows (Rows.deleteWhere selected rows) :=
  fun r hr => .inl ⟨r, (Rows.mem_deleteWhere.mp hr).1, h r⟩

theorem ComesFrom.append {inserted : row}
    (hnew : new inserted) : ComesFrom keep new rows (rows ++ [inserted]) := by
  intro r hr
  rcases mem_append.mp hr with hold | hlast
  · exact .inl ⟨r, hold, h r⟩
  · rw [mem_singleton.mp hlast]
    exact .inr hnew

section

variable {selected : row -> Bool} {change : row -> row}
    (hchange : forall r, selected r = true -> keep r (change r))

include hchange

theorem ComesFrom.updateWhere :
    ComesFrom keep new rows (Rows.updateWhere selected change rows) := by
  intro r hr
  rcases Rows.mem_updateWhere.mp hr with ⟨old, hold, heq⟩
  refine .inl ⟨old, hold, ?_⟩
  rw [heq]
  cases hsel : selected old with
  | false =>
    rw [if_neg Bool.false_ne_true]
    exact h old
  | true =>
    rw [if_pos rfl]
    exact hchange old hsel

theorem ComesFrom.consumeWhere :
    ComesFrom keep new rows (Rows.consumeWhere selected change rows).1 := by
  rcases Rows.consumeWhere_cases selected change rows with ⟨heq, _⟩ | ⟨found, heq, _⟩
  · rw [heq]
    exact ComesFrom.refl h
  · rw [heq]
    exact ComesFrom.updateWhere h hchange

end

end

end Rows

theorem CodeRow.Keeps.refl (now : Nat) (row : CodeRow) : CodeRow.Keeps now row row :=
  ⟨rfl, rfl, rfl, id⟩

theorem RefreshRow.Keeps.refl (now : Nat) (row : RefreshRow) :
    RefreshRow.Keeps now row row :=
  ⟨rfl, rfl, rfl, id⟩

theorem AccessRow.Keeps.refl (now : Nat) (row : AccessRow) :
    AccessRow.Keeps now row row :=
  ⟨rfl, rfl, rfl, id⟩

/-- Where the rows of a store come from after one call. -/
structure StoreStep (now : Nat) (newCode : CodeRow -> Prop)
    (newRefresh : RefreshRow -> Prop) (newAccess : AccessRow -> Prop)
    (store store' : OAuthStore) : Prop where
  codes : ComesFrom (CodeRow.Keeps now) newCode store.codes store'.codes
  refresh : ComesFrom (RefreshRow.Keeps now) newRefresh store.refresh store'.refresh
  access : ComesFrom (AccessRow.Keeps now) newAccess store.access store'.access

section Calls

variable {now : Nat} {newCode : CodeRow -> Prop} {newRefresh : RefreshRow -> Prop}
  {newAccess : AccessRow -> Prop} {store store' : OAuthStore}

theorem StoreStep.of_pending (hcodes : store'.codes = store.codes)
    (hrefresh : store'.refresh = store.refresh) (haccess : store'.access = store.access) :
    StoreStep now newCode newRefresh newAccess store store' where
  codes := by
    rw [hcodes]
    exact ComesFrom.refl (CodeRow.Keeps.refl now)
  refresh := by
    rw [hrefresh]
    exact ComesFrom.refl (RefreshRow.Keeps.refl now)
  access := by
    rw [haccess]
    exact ComesFrom.refl (AccessRow.Keeps.refl now)

theorem StoreStep.refl (now : Nat) (newCode : CodeRow -> Prop)
    (newRefresh : RefreshRow -> Prop) (newAccess : AccessRow -> Prop)
    (store : OAuthStore) :
    StoreStep now newCode newRefresh newAccess store store :=
  StoreStep.of_pending rfl rfl rfl

theorem StoreStep.insertAuthCode {row : CodeRow} (hnew : newCode row) :
    StoreStep now newCode newRefresh newAccess store (store.insertAuthCode row) :=
  { StoreStep.refl now newCode newRefresh newAccess store with
    codes := ComesFrom.append (CodeRow.Keeps.refl now) hnew }

theorem StoreStep.insertRefresh {row : RefreshRow} (hnew : newRefresh row) :
    StoreStep now newCode newRefresh newAccess store (store.insertRefresh row) :=
  { StoreStep.refl now newCode newRefresh newAccess store with
    refresh := ComesFrom.append (RefreshRow.Keeps.refl now) hnew }

theorem StoreStep.insertAccess {row : AccessRow} (hnew : newAccess row) :
    StoreStep now newCode newRefresh newAccess store (store.insertAccess row) :=
  { StoreStep.refl now newCode newRefresh newAccess store with
    access := ComesFrom.append (AccessRow.Keeps.refl now) hnew }

theorem StoreStep.consumeAuthCode (code : Nat) :
    StoreStep now newCode newRefresh newAccess store
      (store.consumeAuthCode now code).1 :=
  { StoreStep.refl now newCode newRefresh newAccess store with
    codes := ComesFrom.consumeWhere (CodeRow.Keeps.refl now)
      fun _ _ => ⟨rfl, rfl, rfl, fun _ => rfl⟩ }

theorem StoreStep.consumeRefresh (token : Nat) (replacedBy : Option Nat) :
    StoreStep now newCode newRefresh newAccess store
      (store.consumeRefresh now token replacedBy).1 :=
  { StoreStep.refl now newCode newRefresh newAccess store with
    refresh := ComesFrom.consumeWhere (RefreshRow.Keeps.refl now)
      fun _ _ => ⟨rfl, rfl, rfl, fun _ => rfl⟩ }

theorem StoreStep.revokeUserTokens (identity : Identity) :
    StoreStep now newCode newRefresh newAccess store
      (store.revokeUserTokens identity) where
  codes := ComesFrom.updateWhere (CodeRow.Keeps.refl now)
    fun _ _ => ⟨rfl, rfl, rfl, fun _ => rfl⟩
  refresh := ComesFrom.updateWhere (RefreshRow.Keeps.refl now)
    fun _ _ => ⟨rfl, rfl, rfl, fun _ => rfl⟩
  access := ComesFrom.updateWhere (AccessRow.Keeps.refl now)
    fun _ _ => ⟨rfl, rfl, rfl, fun _ => rfl⟩

theorem StoreStep.gcExpired :
    StoreStep now newCode newRefresh newAccess store (store.gcExpired now) where
  codes := ComesFrom.deleteWhere (CodeRow.Keeps.refl now) _
  refresh := ComesFrom.deleteWhere (RefreshRow.Keeps.refl now) _
  access := ComesFrom.deleteWhere (AccessRow.Keeps.refl now) _

end Calls

theorem stays_late {live : Bool} {now expiresAt : Nat} (seconds : Nat)
    (h : (live && decide (now < expiresAt)) = false) :
    (live && decide (now + seconds < expiresAt)) = false := by
  rw [Bool.and_eq_false_iff] at *
  rcases h with hused | hlate
  · exact .inl hused
  · rw [decide_eq_false_iff_not] at *
    exact .inr (by omega)

/-!
# Requests
-/

namespace Request

/-- The pending authorization that a request has found. -/
def found : Request -> Option Nat
  | verifying pendingId _ => some pendingId
  | denying pendingId => some pendingId
  | denied pendingId => some pendingId
  | request => request.sawVerified

/-- The pending authorization that a request has taken away. -/
def removed : Request -> Option Nat
  | denied pendingId => some pendingId
  | approved pendingId => some pendingId
  | _ => none

theorem sawVerified_of_minted {request : Request} {pendingId : Nat}
    (h : request.minted = some pendingId) : request.sawVerified = some pendingId := by
  cases request with
  | tearingDown p => exact h
  | approved p => exact h
  | _ => cases h

theorem found_of_sawVerified {request : Request} {pendingId : Nat}
    (h : request.sawVerified = some pendingId) : request.found = some pendingId := by
  cases request with
  | minting row verification => exact h
  | tearingDown p => exact h
  | approved p => exact h
  | _ => cases h

end Request

theorem call_request_quiet (call : Call) :
    call.request.found = none ∧ call.request.took = none ∧
      call.request.removed = none ∧
      (forall identity serial, call.request ≠ .replayed identity serial) := by
  cases call with
  | _ =>
    refine ⟨rfl, rfl, rfl, ?_⟩
    intro identity serial h
    cases h

/-!
# Pending authorizations
-/

/-- A pending authorization belongs to its authorize request, one poll at most reads
it as verified, none when it was denied, and what was removed stays away. -/
structure PendingSound (requests : List Request) (pending : List PendingRow) : Prop where
  known : forall row, row ∈ pending ->
    requests[row.pendingId]? = some .authorized
  found : forall (i : Nat) (r : Request) (p : Nat), requests[i]? = some r -> Request.found r = some p ->
    requests[p]? = some .authorized
  removed : forall (i : Nat) (r : Request) (p : Nat), requests[i]? = some r -> Request.removed r = some p ->
    forall row, row ∈ pending -> row.pendingId ≠ p
  once : forall (i j : Nat) (r r' : Request) (p : Nat), requests[i]? = some r -> requests[j]? = some r' ->
    Request.sawVerified r = some p -> Request.sawVerified r' = some p -> i = j
  unseen : forall (i j : Nat) (r : Request) (p : Nat), requests[i]? = some (.denied p) ->
    requests[j]? = some r -> Request.sawVerified r ≠ some p

variable {requests : List Request}

theorem getElem?_append_cases {r r' : Request} {i : Nat}
    (h : (requests ++ [r])[i]? = some r') :
    requests[i]? = some r' ∨ (i = requests.length ∧ r' = r) := by
  by_cases hlt : i < requests.length
  · rw [List.getElem?_append_left hlt] at h
    exact .inl h
  · rw [List.getElem?_append_right (Nat.le_of_not_lt hlt)] at h
    rcases List.getElem?_eq_some_iff.mp h with ⟨hin, hget⟩
    rw [List.length_singleton] at hin
    rw [List.getElem_singleton] at hget
    exact .inr ⟨by omega, hget.symm⟩

theorem getElem?_append_old {r r' : Request} {i : Nat}
    (h : requests[i]? = some r') : (requests ++ [r])[i]? = some r' := by
  rw [List.getElem?_append_left (List.getElem?_eq_some_iff.mp h).1]
  exact h

/-- No two requests have the same value. -/
def Once {value : Type} (f : Request -> Option value) (requests : List Request) :
    Prop :=
  forall (i j : Nat) (r r' : Request) (v : value), requests[i]? = some r ->
    requests[j]? = some r' -> f r = some v -> f r' = some v -> i = j

section Once

variable {value : Type} {f : Request -> Option value} {r next : Request}

theorem Once.append (h : Once f requests) (hnone : forall v, f r ≠ some v) :
    Once f (requests ++ [r]) := by
  intro i j r1 r2 v hi hj h1 h2
  rcases getElem?_append_cases hi with hold | ⟨_, heq⟩
  · rcases getElem?_append_cases hj with hold' | ⟨_, heq'⟩
    · exact h i j r1 r2 v hold hold' h1 h2
    · rw [heq'] at h2
      exact absurd h2 (hnone v)
  · rw [heq] at h1
    exact absurd h1 (hnone v)

theorem Once.set (h : Once f requests) {i : Nat} (hget : requests[i]? = some r)
    (hnext : forall v, f next = some v -> f r = some v ∨
      forall (j : Nat) (r' : Request), requests[j]? = some r' -> f r' ≠ some v) :
    Once f (requests.set i next) := by
  intro j k r1 r2 v hj hk h1 h2
  rcases getElem?_set_cases hj with ⟨hji, heq⟩ | ⟨_, hold⟩
  · rcases getElem?_set_cases hk with ⟨hki, _⟩ | ⟨_, hold'⟩
    · rw [hji, hki]
    · rw [heq] at h1
      rcases hnext v h1 with hbefore | hnone
      · rw [hji]
        exact h i k r r2 v hget hold' hbefore h2
      · exact absurd h2 (hnone k r2 hold')
  · rcases getElem?_set_cases hk with ⟨hki, heq'⟩ | ⟨_, hold'⟩
    · rw [heq'] at h2
      rcases hnext v h2 with hbefore | hnone
      · rw [hki]
        exact h j i r1 r v hold hget h1 hbefore
      · exact absurd h1 (hnone j r1 hold)
    · exact h j k r1 r2 v hold hold' h1 h2

end Once

theorem PendingSound.call {pending : List PendingRow}
    (h : PendingSound requests pending) {r : Request} (hfound : r.found = none)
    (hremoved : r.removed = none) : PendingSound (requests ++ [r]) pending := by
  have hsaw : forall p, r.sawVerified ≠ some p := by
    intro p hp
    rw [Request.found_of_sawVerified hp] at hfound
    cases hfound
  constructor
  · intro row hrow
    exact getElem?_append_old (h.known row hrow)
  · intro i r' p hget hp
    rcases getElem?_append_cases hget with hold | ⟨_, heq⟩
    · exact getElem?_append_old (h.found i r' p hold hp)
    · rw [heq, hfound] at hp
      cases hp
  · intro i r' p hget hp
    rcases getElem?_append_cases hget with hold | ⟨_, heq⟩
    · exact h.removed i r' p hold hp
    · rw [heq, hremoved] at hp
      cases hp
  · exact Once.append h.once hsaw
  · intro i j r' p hi hj
    rcases getElem?_append_cases hi with hold | ⟨_, heq⟩
    · rcases getElem?_append_cases hj with hold' | ⟨_, heq'⟩
      · exact h.unseen i j r' p hold hold'
      · rw [heq']
        exact hsaw p
    · rw [← heq] at hremoved
      cases hremoved

theorem PendingSound.advance
    {pending pending' : List PendingRow} (h : PendingSound requests pending) {i : Nat}
    {r next : Request} (hget : requests[i]? = some r) (hnot : r ≠ .authorized)
    (hrows : forall row, row ∈ pending' ->
      (exists old, old ∈ pending ∧ row.pendingId = old.pendingId) ∨
        (row.pendingId = i ∧ next = .authorized))
    (hfound : forall p, next.found = some p ->
      r.found = some p ∨ exists row, row ∈ pending ∧ row.pendingId = p)
    (hremoved : forall p, next.removed = some p ->
      forall row, row ∈ pending' -> row.pendingId ≠ p)
    (hsaw : forall p, next.sawVerified = some p -> r.sawVerified = some p ∨
      ((forall other, other ∈ requests -> other.sawVerified ≠ some p) ∧
        exists row, row ∈ pending ∧ row.pendingId = p))
    (hdenied : forall p, next = .denied p ->
      forall other, other ∈ requests -> other.sawVerified ≠ some p) :
    PendingSound (requests.set i next) pending' := by
  have hstays : forall p : Nat, requests[p]? = some .authorized ->
      (requests.set i next)[p]? = some .authorized := by
    intro p hp
    rw [getElem?_set_ne]
    · exact hp
    · intro heq
      rw [heq, hp] at hget
      cases hget
      exact hnot rfl
  constructor
  · intro row hrow
    rcases hrows row hrow with ⟨old, hold, heq⟩ | ⟨heq, hauth⟩
    · rw [heq]
      exact hstays _ (h.known old hold)
    · rw [heq, hauth]
      exact getElem?_set_of_some hget
  · intro j r' p hj hp
    apply hstays
    rcases getElem?_set_cases hj with ⟨_, heq⟩ | ⟨_, hold⟩
    · rw [heq] at hp
      rcases hfound p hp with hbefore | ⟨row, hrow, hid⟩
      · exact h.found i r p hget hbefore
      · rw [← hid]
        exact h.known row hrow
    · exact h.found j r' p hold hp
  · intro j r' p hj hp row hrow
    rcases getElem?_set_cases hj with ⟨_, heq⟩ | ⟨_, hold⟩
    · rw [heq] at hp
      exact hremoved p hp row hrow
    rcases hrows row hrow with ⟨old, hin, heq⟩ | ⟨heq, hauth⟩
    · rw [heq]
      exact h.removed j r' p hold hp old hin
    rw [heq]
    intro hip
    have hp' : requests[p]? = some .authorized := by
      apply h.found j r' p hold
      cases r' with
      | denied q => exact hp
      | approved q => exact hp
      | _ => cases hp
    rw [← hip, hget] at hp'
    cases hp'
    exact hnot rfl
  · exact Once.set h.once hget fun p hp => (hsaw p hp).imp_right fun hnone _ other hj =>
      hnone.1 other (mem_of_getElem? hj)
  · intro j k r' p hj hk
    rcases getElem?_set_cases hj with ⟨hji, heq⟩ | ⟨hji, hold⟩
    · rcases getElem?_set_cases hk with ⟨hki, heq'⟩ | ⟨hki, hold'⟩
      · rw [heq', ← heq]
        intro hsome
        cases hsome
      · exact hdenied p heq.symm r' (mem_of_getElem? hold')
    · rcases getElem?_set_cases hk with ⟨hki, heq'⟩ | ⟨hki, hold'⟩
      · rw [heq']
        intro hsome
        rcases hsaw p hsome with hbefore | ⟨_, row, hrow, hid⟩
        · exact h.unseen j i r p hold hget hbefore
        · exact h.removed j _ p hold rfl row hrow hid
      · exact h.unseen j k r' p hold hold'

/-!
# Codes and refresh tokens
-/

/-- A code or refresh token belongs to the request that minted it, and what a request
has taken is good for no other. -/
structure TokensSound (requests : List Request) (store : OAuthStore) (now : Nat) :
    Prop where
  codeKnown : forall row, row ∈ store.codes ->
    exists r p, requests[row.code]? = some r ∧ Request.minted r = some p
  refreshKnown : forall row, row ∈ store.refresh ->
    exists origin, requests[row.token]? = some (.issued origin)
  codeTaken : forall (i : Nat) (r : Request) (code : Nat), requests[i]? = some r ->
    r.took = some (.code code) ->
    (exists r' p, requests[code]? = some r' ∧ Request.minted r' = some p) ∧
      forall row, row ∈ store.codes -> row.code = code -> row.usable now = false
  refreshTaken : forall (i : Nat) (r : Request) (token : Nat), requests[i]? = some r ->
    r.took = some (.refresh token) ->
    (exists origin, requests[token]? = some (.issued origin)) ∧
      forall row, row ∈ store.refresh -> row.token = token -> row.active now = false
  once : forall (i j : Nat) (r r' : Request) (origin : Origin),
    requests[i]? = some r -> requests[j]? = some r' -> r.took = some origin ->
    r'.took = some origin -> i = j

/-- A call that takes a code or a token finds it usable and leaves it unusable. -/
def Takes (now : Nat) (store store' : OAuthStore) : Origin -> Prop
  | .code code =>
    (exists row, row ∈ store.codes ∧ row.code = code ∧ row.usable now = true) ∧
      forall row, row ∈ store'.codes -> row.code = code -> row.usable now = false
  | .refresh token =>
    (exists row, row ∈ store.refresh ∧ row.token = token ∧ row.active now = true) ∧
      forall row, row ∈ store'.refresh -> row.token = token -> row.active now = false

section Tokens

variable {requests : List Request} {store store' : OAuthStore} {now : Nat}

section

variable (h : TokensSound requests store now)

include h

theorem TokensSound.call {r : Request}
    (htook : r.took = none) : TokensSound (requests ++ [r]) store now := by
  constructor
  · intro row hrow
    rcases h.codeKnown row hrow with ⟨r', p, hget, hminted⟩
    exact ⟨r', p, getElem?_append_old hget, hminted⟩
  · intro row hrow
    rcases h.refreshKnown row hrow with ⟨origin, hget⟩
    exact ⟨origin, getElem?_append_old hget⟩
  · intro i r' code hget htaken
    rcases getElem?_append_cases hget with hold | ⟨_, heq⟩
    · rcases h.codeTaken i r' code hold htaken with ⟨⟨r1, p, hr1, hminted⟩, hrows⟩
      exact ⟨⟨r1, p, getElem?_append_old hr1, hminted⟩, hrows⟩
    · rw [heq, htook] at htaken
      cases htaken
  · intro i r' token hget htaken
    rcases getElem?_append_cases hget with hold | ⟨_, heq⟩
    · rcases h.refreshTaken i r' token hold htaken with ⟨⟨origin, hr1⟩, hrows⟩
      exact ⟨⟨origin, getElem?_append_old hr1⟩, hrows⟩
    · rw [heq, htook] at htaken
      cases htaken
  · exact Once.append h.once fun origin htaken => nomatch htook.symm.trans htaken

theorem TokensSound.not_taken {origin : Origin}
    (htakes : Takes now store store' origin) {j : Nat} {r : Request}
    (hget : requests[j]? = some r) : r.took ≠ some origin := by
  intro htook
  cases origin with
  | code code =>
    rcases htakes.1 with ⟨row, hrow, hcode, husable⟩
    rw [(h.codeTaken j r code hget htook).2 row hrow hcode] at husable
    cases husable
  | refresh token =>
    rcases htakes.1 with ⟨row, hrow, htoken, hactive⟩
    rw [(h.refreshTaken j r token hget htook).2 row hrow htoken] at hactive
    cases hactive

theorem TokensSound.advance {i : Nat}
    {r next : Request} {newAccess : AccessRow -> Prop} (hget : requests[i]? = some r)
    (hminted : forall p, r.minted = some p -> next.minted = some p)
    (hissued : forall origin, r ≠ .issued origin)
    (hstore : StoreStep now
      (fun row => row.code = i ∧ r.minted = none ∧ exists p, next.minted = some p)
      (fun row => row.token = i ∧ exists origin, next = .issued origin)
      newAccess store store')
    (htook : forall origin, next.took = some origin ->
      r.took = some origin ∨ Takes now store store' origin) :
    TokensSound (requests.set i next) store' now := by
  have hself : (requests.set i next)[i]? = some next :=
    getElem?_set_of_some hget
  have hmint : forall (c : Nat), (exists r' p, requests[c]? = some r' ∧
      Request.minted r' = some p) -> exists r' p, (requests.set i next)[c]? = some r' ∧
        Request.minted r' = some p := by
    intro c hc
    rcases hc with ⟨r', p, hr', hp⟩
    by_cases heq : c = i
    · rw [heq, hget] at hr'
      cases hr'
      rw [heq]
      exact ⟨next, p, hself, hminted p hp⟩
    · exact ⟨r', p, (getElem?_set_ne (Ne.symm heq)).trans hr', hp⟩
  have hissue : forall (t : Nat), (exists origin,
      requests[t]? = some (.issued origin)) ->
        exists origin, (requests.set i next)[t]? = some (.issued origin) := by
    intro t ht
    rcases ht with ⟨origin, hr'⟩
    have hne : i ≠ t := by
      intro heq
      rw [← heq, hget] at hr'
      cases hr'
      exact hissued origin rfl
    exact ⟨origin, (getElem?_set_ne hne).trans hr'⟩
  constructor
  · intro row hrow
    rcases hstore.codes row hrow with ⟨old, hold, hkeeps⟩ | ⟨hcode, _, p, hp⟩
    · rw [hkeeps.code]
      exact hmint old.code (h.codeKnown old hold)
    · rw [hcode]
      exact ⟨next, p, hself, hp⟩
  · intro row hrow
    rcases hstore.refresh row hrow with ⟨old, hold, hkeeps⟩ | ⟨htoken, origin, horigin⟩
    · rw [hkeeps.token]
      exact hissue old.token (h.refreshKnown old hold)
    · rw [htoken]
      exact ⟨origin, hself.trans (congrArg some horigin)⟩
  · intro j r' code hj htaken
    have hbefore : forall (k : Nat) (r'' : Request), requests[k]? = some r'' ->
        r''.took = some (.code code) ->
        (exists r' p, (requests.set i next)[code]? = some r' ∧
          Request.minted r' = some p) ∧
          forall row, row ∈ store'.codes -> row.code = code ->
            row.usable now = false := by
      intro k r'' hk htk
      rcases h.codeTaken k r'' code hk htk with ⟨hknown, hrows⟩
      refine ⟨hmint code hknown, ?_⟩
      intro row hrow hcode
      rcases hstore.codes row hrow with ⟨old, hold, hkeeps⟩ | ⟨hi, hnone, _⟩
      · exact hkeeps.usable (hrows old hold (hkeeps.code.symm.trans hcode))
      · rcases hknown with ⟨r1, p, hr1, hp⟩
        rw [← hcode, hi, hget] at hr1
        cases hr1
        rw [hnone] at hp
        cases hp
    rcases getElem?_set_cases hj with ⟨_, heq⟩ | ⟨_, hold⟩
    · rw [heq] at htaken
      rcases htook _ htaken with htk | ⟨⟨row, hrow, hcode, _⟩, hrows⟩
      · exact hbefore i r hget htk
      · refine ⟨?_, hrows⟩
        rw [← hcode]
        exact hmint row.code (h.codeKnown row hrow)
    · exact hbefore j r' hold htaken
  · intro j r' token hj htaken
    have hbefore : forall (k : Nat) (r'' : Request), requests[k]? = some r'' ->
        r''.took = some (.refresh token) ->
        (exists origin, (requests.set i next)[token]? = some (.issued origin)) ∧
          forall row, row ∈ store'.refresh -> row.token = token ->
            row.active now = false := by
      intro k r'' hk htk
      rcases h.refreshTaken k r'' token hk htk with ⟨hknown, hrows⟩
      refine ⟨hissue token hknown, ?_⟩
      intro row hrow htoken
      rcases hstore.refresh row hrow with ⟨old, hold, hkeeps⟩ | ⟨hi, _⟩
      · exact hkeeps.active (hrows old hold (hkeeps.token.symm.trans htoken))
      · rcases hknown with ⟨origin, hr1⟩
        rw [← htoken, hi, hget] at hr1
        cases hr1
        exact absurd rfl (hissued origin)
    rcases getElem?_set_cases hj with ⟨_, heq⟩ | ⟨_, hold⟩
    · rw [heq] at htaken
      rcases htook _ htaken with htk | ⟨⟨row, hrow, htoken, _⟩, hrows⟩
      · exact hbefore i r hget htk
      · refine ⟨?_, hrows⟩
        rw [← htoken]
        exact hissue row.token (h.refreshKnown row hrow)
    · exact hbefore j r' hold htaken
  · exact Once.set h.once hget fun origin htaken =>
      (htook origin htaken).imp_right fun htakes _ _ hj => h.not_taken htakes hj

theorem TokensSound.stored {now' : Nat}
    (hcodes : forall row, row ∈ store'.codes -> exists old, old ∈ store.codes ∧
      row.code = old.code ∧ (old.usable now = false -> row.usable now' = false))
    (hrefresh : forall row, row ∈ store'.refresh -> exists old, old ∈ store.refresh ∧
      row.token = old.token ∧ (old.active now = false -> row.active now' = false)) :
    TokensSound requests store' now' := by
  constructor
  · intro row hrow
    rcases hcodes row hrow with ⟨old, hold, hcode, _⟩
    rw [hcode]
    exact h.codeKnown old hold
  · intro row hrow
    rcases hrefresh row hrow with ⟨old, hold, htoken, _⟩
    rw [htoken]
    exact h.refreshKnown old hold
  · intro i r code hget htaken
    rcases h.codeTaken i r code hget htaken with ⟨hknown, hrows⟩
    refine ⟨hknown, ?_⟩
    intro row hrow hcode
    rcases hcodes row hrow with ⟨old, hold, heq, husable⟩
    exact husable (hrows old hold (heq.symm.trans hcode))
  · intro i r token hget htaken
    rcases h.refreshTaken i r token hget htaken with ⟨hknown, hrows⟩
    refine ⟨hknown, ?_⟩
    intro row hrow htoken
    rcases hrefresh row hrow with ⟨old, hold, heq, hactive⟩
    exact hactive (hrows old hold (heq.symm.trans htoken))
  · exact h.once

end

end Tokens

end OAuth
end OpenViking
