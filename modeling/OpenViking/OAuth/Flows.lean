import OpenViking.Common.Csr
import OpenViking.Common.Interleaving

/-!
# The OAuth store

Each operation is one call of the store and reads the clock once.  Secrets are
numbers, minted fresh by the requests, and `createdAt` numbers the steps of a run.
-/

namespace OpenViking
namespace OAuth

structure Identity where
  accountId : String
  userId : String
deriving DecidableEq

/-- What a code and the tokens that come from it are good for. -/
structure Grant where
  clientId : String
  identity : Identity
  role : String
  scopes : List String
  resource : Option String
  authorizingKeyFp : String
deriving DecidableEq

structure CodeRow where
  code : Nat
  grant : Grant
  redirectUri : String
  codeChallenge : String
  expiresAt : Nat
  used : Bool
  createdAt : Nat
deriving DecidableEq

structure RefreshRow where
  token : Nat
  grant : Grant
  expiresAt : Nat
  consumed : Bool
  replacedBy : Option Nat
  createdAt : Nat
deriving DecidableEq

structure AccessRow where
  token : Nat
  grant : Grant
  expiresAt : Nat
  revoked : Bool
  createdAt : Nat
deriving DecidableEq

/-- Who verified a pending authorization. -/
structure Verification where
  identity : Identity
  role : String
  keyFp : String
deriving DecidableEq

structure AuthorizationParams where
  clientId : String
  redirectUri : String
  redirectUriProvidedExplicitly : Bool
  codeChallenge : String
  scopes : List String
  resource : Option String
  state : Option String
  displayCode : String
deriving DecidableEq

structure PendingRow where
  pendingId : Nat
  params : AuthorizationParams
  verified : Option Verification
  expiresAt : Nat
deriving DecidableEq

/-- How long what is issued lives, in seconds. -/
structure Lifetimes where
  pending : Nat
  code : Nat
  access : Nat
  refresh : Nat
deriving DecidableEq

structure OAuthStore where
  pending : List PendingRow
  codes : List CodeRow
  refresh : List RefreshRow
  access : List AccessRow
deriving DecidableEq

def CodeRow.usable (now : Nat) (row : CodeRow) : Bool :=
  !row.used && decide (now < row.expiresAt)

def RefreshRow.active (now : Nat) (row : RefreshRow) : Bool :=
  !row.consumed && decide (now < row.expiresAt)

def AccessRow.valid (now : Nat) (row : AccessRow) : Bool :=
  !row.revoked && decide (now < row.expiresAt)

namespace OAuthStore

variable (store : OAuthStore) (now : Nat)

/-!
# Pending authorizations
-/

def createPendingAuthorization (pendingId : Nat) (params : AuthorizationParams)
    (ttl : Nat) : OAuthStore :=
  { store with
    pending := store.pending ++
      [{ pendingId := pendingId
         params := params
         verified := none
         expiresAt := now + ttl }] }

def loadPendingAuthorization (pendingId : Nat) : Option PendingRow :=
  store.pending.find? fun row =>
    decide (row.pendingId = pendingId) && decide (now < row.expiresAt)

/-- The display code is compared as it is normalised. -/
def findPendingByDisplayCode (displayCode : String) : Option PendingRow :=
  if displayCode = "" then none
  else
    store.pending.find? fun row =>
      decide (row.params.displayCode = displayCode) &&
        decide (now < row.expiresAt) && row.verified.isNone

def markPendingVerified (pendingId : Nat) (verification : Verification) :
    OAuthStore × Bool :=
  match Rows.consumeWhere
      (fun row => decide (row.pendingId = pendingId) && row.verified.isNone &&
        decide (now < row.expiresAt))
      (fun row => { row with verified := some verification }) store.pending with
  | (rows, found) => ({ store with pending := rows }, found.isSome)

def deletePendingAuthorization (pendingId : Nat) : OAuthStore :=
  { store with
    pending :=
      Rows.deleteWhere (fun row => decide (row.pendingId = pendingId)) store.pending }

/-!
# Codes and tokens
-/

def insertAuthCode (row : CodeRow) : OAuthStore :=
  { store with codes := store.codes ++ [row] }

def peekAuthCode (code : Nat) : Option CodeRow :=
  store.codes.find? fun row => decide (row.code = code) && row.usable now

/-- `_atomic_consume_code`. -/
def consumeAuthCode (code : Nat) : OAuthStore × Option CodeRow :=
  match Rows.consumeWhere (fun row => decide (row.code = code) && row.usable now)
      (fun row => { row with used := true }) store.codes with
  | (rows, found) => ({ store with codes := rows }, found)

def insertRefresh (row : RefreshRow) : OAuthStore :=
  { store with refresh := store.refresh ++ [row] }

def peekRefresh (token : Nat) : Option RefreshRow :=
  store.refresh.find? fun row => decide (row.token = token) && row.active now

def consumeRefresh (token : Nat) (replacedBy : Option Nat) :
    OAuthStore × Option RefreshRow :=
  match Rows.consumeWhere (fun row => decide (row.token = token) && row.active now)
      (fun row => { row with consumed := true, replacedBy := replacedBy })
      store.refresh with
  | (rows, found) => ({ store with refresh := rows }, found)

def isRefreshKnownButConsumed (token : Nat) : Bool :=
  match store.refresh.find? fun row => decide (row.token = token) with
  | none => false
  | some row => row.consumed

def insertAccess (row : AccessRow) : OAuthStore :=
  { store with access := store.access ++ [row] }

def revokeUserTokens (identity : Identity) : OAuthStore :=
  { pending :=
      Rows.deleteWhere
        (fun row => decide (row.verified.map Verification.identity = some identity))
        store.pending
    codes :=
      Rows.updateWhere
        (fun row => decide (row.grant.identity = identity) && !row.used)
        (fun row => { row with used := true }) store.codes
    refresh :=
      Rows.updateWhere
        (fun row => decide (row.grant.identity = identity) && !row.consumed)
        (fun row => { row with consumed := true }) store.refresh
    access :=
      Rows.updateWhere
        (fun row => decide (row.grant.identity = identity) && !row.revoked)
        (fun row => { row with revoked := true }) store.access }

/-- Consumed refresh tokens are kept until they expire. -/
def gcExpired : OAuthStore :=
  { pending := Rows.deleteWhere (fun row => decide (row.expiresAt < now)) store.pending
    codes :=
      Rows.deleteWhere (fun row => decide (row.expiresAt < now) || row.used) store.codes
    refresh := Rows.deleteWhere (fun row => decide (row.expiresAt < now)) store.refresh
    access :=
      Rows.deleteWhere (fun row => decide (row.expiresAt < now) || row.revoked)
        store.access }

end OAuthStore

/-!
# The OAuth requests

A request goes from one call of the store to the next, and the calls of all requests
interleave.  The number of a request names what it mints.
-/

/-- How a verify request names the pending authorization. -/
inductive Lookup where
  | pendingId (pendingId : Nat)
  | displayCode (displayCode : String)
deriving DecidableEq

/-- What a token pair was issued for. -/
inductive Origin where
  | code (code : Nat)
  | refresh (token : Nat)
deriving DecidableEq

/-- Where a request is.  `accepted` is what the token handler's own checks (client,
scopes, PKCE, role) say after the token was loaded. -/
inductive Request where
  | authorize (params : AuthorizationParams)
  | authorized
  | verify (lookup : Lookup) (approve : Bool) (verifier : Option Verification)
  | verifying (pendingId : Nat) (verification : Verification)
  | verified
  | denying (pendingId : Nat)
  | denied (pendingId : Nat)
  | poll (pendingId : Nat)
  | minting (row : PendingRow) (verification : Verification)
  | tearingDown (pendingId : Nat)
  | approved (pendingId : Nat)
  | exchange (clientId : String) (code : Nat) (accepted : Bool)
  | consumingCode (code : Nat) (grant : Grant)
  | issuingAccess (origin : Origin) (grant : Grant)
  | issuingRefresh (origin : Origin) (grant : Grant)
  | issued (origin : Origin)
  | refresh (clientId : String) (token : Nat) (scopes : List String) (accepted : Bool)
  | consumingRefresh (token : Nat) (grant : Grant)
  | checkingReplay (token : Nat) (identity : Identity)
  | revoking (identity : Identity)
  | replayed (identity : Identity) (finishedAt : Nat)
  | refused
deriving DecidableEq

structure World where
  store : OAuthStore
  now : Nat
  serial : Nat
  requests : List Request
deriving DecidableEq

def World.start (now : Nat) : World :=
  { store := { pending := [], codes := [], refresh := [], access := [] }
    now := now
    serial := 0
    requests := [] }

/-- A request as it comes in. -/
inductive Call where
  | authorize (params : AuthorizationParams)
  | verify (lookup : Lookup) (approve : Bool) (verifier : Option Verification)
  | poll (pendingId : Nat)
  | exchange (clientId : String) (code : Nat) (accepted : Bool)
  | refresh (clientId : String) (token : Nat) (scopes : List String) (accepted : Bool)
deriving DecidableEq

def Call.request : Call -> Request
  | authorize params => .authorize params
  | verify lookup approve verifier => .verify lookup approve verifier
  | poll pendingId => .poll pendingId
  | exchange clientId code accepted => .exchange clientId code accepted
  | refresh clientId token scopes accepted =>
    .refresh clientId token scopes accepted

inductive Label where
  | call (call : Call)
  | advance (index : Nat)
  | gc
  | tick (seconds : Nat)
deriving DecidableEq

section Requests

variable (lifetimes : Lifetimes) (index now serial : Nat) (store : OAuthStore)

/-- `authorize_page_status` and `oauth_verify` up to their first write. -/
def loadForVerify (lookup : Lookup) : Option PendingRow :=
  match lookup with
  | Lookup.pendingId pendingId =>
    match store.loadPendingAuthorization now pendingId with
    | none => none
    | some row => if row.verified.isSome then none else some row
  | Lookup.displayCode displayCode => store.findPendingByDisplayCode now displayCode

/-- The verifier needs a key to bind the authorization to. -/
def verifyLoaded (row : PendingRow) (approve : Bool)
    (verifier : Option Verification) : Request :=
  if approve then
    match verifier with
    | none => .refused
    | some verification =>
      if verification.keyFp = "" then .refused
      else .verifying row.pendingId verification
  else .denying row.pendingId

def pollLoaded (row : Option PendingRow) : Request :=
  match row with
  | none => .refused
  | some row =>
    match row.verified with
    | none => .refused
    | some verification => .minting row verification

/-- The code that `authorize_page_status` mints. -/
def mintedCode (row : PendingRow) (verification : Verification) : CodeRow :=
  { code := index
    grant :=
      { clientId := row.params.clientId
        identity := verification.identity
        role := verification.role
        scopes := row.params.scopes
        resource := row.params.resource
        authorizingKeyFp := verification.keyFp }
    redirectUri := row.params.redirectUri
    codeChallenge := row.params.codeChallenge
    expiresAt := now + lifetimes.code
    used := false
    createdAt := serial }

def exchangeLoaded (clientId : String) (code : Nat) (accepted : Bool)
    (row : Option CodeRow) : Request :=
  match row with
  | none => .refused
  | some row =>
    if row.grant.clientId = clientId ∧ accepted = true then
      .consumingCode code row.grant
    else .refused

def knownConsumed (token : Nat) : Option RefreshRow :=
  store.refresh.find? fun row =>
    decide (row.token = token) && row.consumed && decide (now < row.expiresAt)

/-- A refresh token that is not active is refused before it can be exchanged. -/
def refreshLoaded (clientId : String) (token : Nat) (scopes : List String)
    (accepted : Bool) : Request :=
  match store.peekRefresh now token with
  | none =>
    match knownConsumed now store token with
    | none => .refused
    | some row => .replayed row.grant.identity serial
  | some row =>
    if row.grant.clientId = clientId ∧ accepted = true then
      .consumingRefresh token
        { row.grant with
          scopes := if scopes = [] then row.grant.scopes else scopes }
    else .refused

def issuedAccess (grant : Grant) : AccessRow :=
  { token := index
    grant := grant
    expiresAt := now + lifetimes.access
    revoked := false
    createdAt := serial }

def issuedRefresh (grant : Grant) : RefreshRow :=
  { token := index
    grant := grant
    expiresAt := now + lifetimes.refresh
    consumed := false
    replacedBy := none
    createdAt := serial }

/-- One call of the store and what the request goes on with. -/
def advance : Request -> Option (OAuthStore × Request)
  | .authorize params =>
    some
      (store.createPendingAuthorization now index params lifetimes.pending,
        .authorized)
  | .verify lookup approve verifier =>
    match loadForVerify now store lookup with
    | none => some (store, .refused)
    | some row => some (store, verifyLoaded row approve verifier)
  | .verifying pendingId verification =>
    match store.markPendingVerified now pendingId verification with
    | (after, marked) =>
      some (after, if marked then .verified else .refused)
  | .denying pendingId =>
    some (store.deletePendingAuthorization pendingId, .denied pendingId)
  | .poll pendingId =>
    some (store, pollLoaded (store.loadPendingAuthorization now pendingId))
  | .minting row verification =>
    some
      (store.insertAuthCode (mintedCode lifetimes index now serial row verification),
        .tearingDown row.pendingId)
  | .tearingDown pendingId =>
    some (store.deletePendingAuthorization pendingId, .approved pendingId)
  | .exchange clientId code accepted =>
    some
      (store, exchangeLoaded clientId code accepted (store.peekAuthCode now code))
  | .consumingCode code grant =>
    match store.consumeAuthCode now code with
    | (after, none) => some (after, .refused)
    | (after, some _) => some (after, .issuingAccess (Origin.code code) grant)
  | .refresh clientId token scopes accepted =>
    some (store, refreshLoaded now serial store clientId token scopes accepted)
  | .consumingRefresh token grant =>
    match store.consumeRefresh now token (some index) with
    | (after, none) => some (after, .checkingReplay token grant.identity)
    | (after, some _) =>
      some (after, .issuingAccess (Origin.refresh token) grant)
  | .checkingReplay token identity =>
    some
      (store,
        if store.isRefreshKnownButConsumed token then .revoking identity
        else .refused)
  | .revoking identity =>
    some (store.revokeUserTokens identity, .replayed identity serial)
  | .issuingAccess origin grant =>
    some
      (store.insertAccess (issuedAccess lifetimes index now serial grant),
        .issuingRefresh origin grant)
  | .issuingRefresh origin grant =>
    some
      (store.insertRefresh (issuedRefresh lifetimes index now serial grant),
        .issued origin)
  | _ => none

end Requests

def step (lifetimes : Lifetimes) (world : World) : Label -> Option World
  | .call call =>
    some
      { world with
        serial := world.serial + 1
        requests := world.requests ++ [call.request] }
  | .advance index =>
    match world.requests[index]? with
    | none => none
    | some request =>
      match advance lifetimes index world.now world.serial world.store request with
      | none => none
      | some (store, next) =>
        some
          { world with
            store := store
            serial := world.serial + 1
            requests := world.requests.set index next }
  | .gc =>
    some
      { world with
        store := world.store.gcExpired world.now
        serial := world.serial + 1 }
  | .tick seconds =>
    some { world with now := world.now + seconds, serial := world.serial + 1 }

/-!
# What is promised
-/

namespace Request

/-- The pending authorization that a poll has read as verified. -/
def sawVerified : Request -> Option Nat
  | minting row _ => some row.pendingId
  | tearingDown pendingId => some pendingId
  | approved pendingId => some pendingId
  | _ => none

/-- The pending authorization that a poll has minted a code for. -/
def minted : Request -> Option Nat
  | tearingDown pendingId => some pendingId
  | approved pendingId => some pendingId
  | _ => none

/-- What a request has consumed to issue a token pair. -/
def took : Request -> Option Origin
  | issuingAccess origin _ => some origin
  | issuingRefresh origin _ => some origin
  | issued origin => some origin
  | _ => none

end Request

/-- No code, refresh token or access token of the user that was created before
`serial` is accepted. -/
structure Dead (world : World) (identity : Identity) (serial : Nat) : Prop where
  codes : forall row, row ∈ world.store.codes -> row.grant.identity = identity ->
    row.createdAt < serial -> row.usable world.now = false
  refresh : forall row, row ∈ world.store.refresh -> row.grant.identity = identity ->
    row.createdAt < serial -> row.active world.now = false
  access : forall row, row ∈ world.store.access -> row.grant.identity = identity ->
    row.createdAt < serial -> row.valid world.now = false

structure GrantsSafe (world : World) : Prop where
  mintedOnce : forall (i j : Nat) (r r' : Request) (pendingId : Nat),
    world.requests[i]? = some r -> world.requests[j]? = some r' ->
    r.minted = some pendingId -> r'.minted = some pendingId -> i = j
  deniedNone : forall (i j : Nat) (r : Request) (pendingId : Nat),
    world.requests[i]? = some (.denied pendingId) ->
    world.requests[j]? = some r -> r.minted ≠ some pendingId
  tookOnce : forall (i j : Nat) (r r' : Request) (origin : Origin),
    world.requests[i]? = some r -> world.requests[j]? = some r' ->
    r.took = some origin -> r'.took = some origin -> i = j
  replayRevokes : forall (i : Nat) (identity : Identity) (finishedAt : Nat),
    world.requests[i]? = some (.replayed identity finishedAt) ->
    Dead world identity finishedAt

namespace Request

def polls : Request -> Option Nat
  | poll pendingId => some pendingId
  | _ => none

def denies : Request -> Option Nat
  | denying pendingId => some pendingId
  | _ => none

def presents : Request -> Option Nat
  | refresh _ token _ _ => some token
  | _ => none

end Request

/-- A poll that reads a verified authorization is the first to read it, a denial
comes before any poll has read the authorization as verified, and a refresh token
that was consumed is not presented while something of its user is accepted. -/
structure GuardedRequest (world : World) (request : Request) : Prop where
  firstPoll : forall pendingId, request.polls = some pendingId -> forall row,
    world.store.loadPendingAuthorization world.now pendingId = some row ->
    row.verified.isSome = true ->
    forall r, r ∈ world.requests -> r.sawVerified ≠ some pendingId
  earlyDenial : forall pendingId, request.denies = some pendingId ->
    forall r, r ∈ world.requests -> r.sawVerified ≠ some pendingId
  freshToken : forall token, request.presents = some token -> forall row,
    knownConsumed world.now world.store token = some row ->
    Dead world row.grant.identity world.serial

def Guarded (world : World) : Label -> Prop
  | .advance index => forall request, world.requests[index]? = some request ->
      GuardedRequest world request
  | _ => True

instance (world : World) (identity : Identity) (serial : Nat) :
    Decidable (Dead world identity serial) :=
  decidable_of_iff
    ((forall row, row ∈ world.store.codes -> row.grant.identity = identity ->
        row.createdAt < serial -> row.usable world.now = false) ∧
      (forall row, row ∈ world.store.refresh -> row.grant.identity = identity ->
        row.createdAt < serial -> row.active world.now = false) ∧
      (forall row, row ∈ world.store.access -> row.grant.identity = identity ->
        row.createdAt < serial -> row.valid world.now = false))
    ⟨fun h => ⟨h.1, h.2.1, h.2.2⟩, fun h => ⟨h.codes, h.refresh, h.access⟩⟩

instance (world : World) (request : Request) :
    Decidable (GuardedRequest world request) :=
  decidable_of_iff
    ((forall pendingId, pendingId ∈ request.polls -> forall row,
        row ∈ world.store.loadPendingAuthorization world.now pendingId ->
        row.verified.isSome = true ->
        forall r, r ∈ world.requests -> r.sawVerified ≠ some pendingId) ∧
      (forall pendingId, pendingId ∈ request.denies ->
        forall r, r ∈ world.requests -> r.sawVerified ≠ some pendingId) ∧
      (forall token, token ∈ request.presents -> forall row,
        row ∈ knownConsumed world.now world.store token ->
        Dead world row.grant.identity world.serial))
    ⟨fun h => ⟨h.1, h.2.1, h.2.2⟩, fun h => ⟨h.firstPoll, h.earlyDenial, h.freshToken⟩⟩

instance (world : World) : forall label, Decidable (Guarded world label)
  | .advance index =>
    inferInstanceAs (Decidable (forall request, request ∈ world.requests[index]? ->
      GuardedRequest world request))
  | .call _ => isTrue trivial
  | .gc => isTrue trivial
  | .tick _ => isTrue trivial

end OAuth
end OpenViking
