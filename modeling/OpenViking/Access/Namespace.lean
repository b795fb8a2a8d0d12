import OpenViking.Common.Path
import OpenViking.Common.Segments

/-!
# Viking URIs

A URI is read by two parsers.  `_safe_uri_parts` serves the storage paths and
keeps everything after the scheme, `uri_parts` serves the namespace rules and
drops what follows the first question mark.
-/

namespace OpenViking
namespace Access

open Paths Segments

/-- What a check raises.  A namespace shape error is a value error that the
namespace rules catch. -/
inductive AccessError where
  | valueError (message : Str)
  | namespaceShape (message : Str)
  | permissionDenied (message resource : Str)
  | failedPrecondition (message : Str)
deriving DecidableEq

/-- The character classes of the host language. -/
structure CharClass where
  isAlpha : Char -> Bool
  isDigit : Char -> Bool
  isSpace : Char -> Bool

def scheme : Str := "viking://".toList

def schemeError : AccessError :=
  .valueError "URI must start with 'viking://'".toList

/-!
# Storage parts
-/

/-- What is wrong with a component of a storage path. -/
def traversalError? (cc : CharClass) (uri part : Str) : Option AccessError :=
  if part = ".".toList ∨ part = "..".toList then
    some (.permissionDenied
      ("Unsafe URI traversal segment '".toList ++ part ++ "' in ".toList ++ uri)
      uri)
  else if '\\' ∈ part then
    some (.permissionDenied
      ("Unsafe URI path separator '\\\\' in component '".toList ++ part
        ++ "' of ".toList ++ uri)
      uri)
  else
    match part with
    | first :: ':' :: _ =>
      if cc.isAlpha first then
        some (.permissionDenied
          ("Unsafe URI drive-prefixed component '".toList ++ part
            ++ "' in ".toList ++ uri)
          uri)
      else none
    | _ => none

def safeUriParts (cc : CharClass) (uri : Str) : Except AccessError (List Str) :=
  if scheme <+: uri then
    let parts := segments '/' (strip '/' (uri.drop scheme.length))
    match parts.findSome? (traversalError? cc uri) with
    | some error => .error error
    | none => .ok parts
  else .error schemeError

/-!
# Namespace parts
-/

def uriParts (uri : Str) : Except AccessError (List Str) :=
  let normalized := cutAt '?' uri
  if scheme <+: normalized then
    if normalized = scheme then .ok []
    else .ok (segments '/' ((stripRight '/' normalized).drop scheme.length))
  else .error schemeError

def visitableScopes : List Str :=
  ["resources".toList, "user".toList, "agent".toList, "session".toList,
    "temp".toList, "queue".toList, "upload".toList, "~".toList]

structure VikingURI where
  uri : Str
  scope : Str
  fullPath : Str
deriving DecidableEq

/-- The scope is the text before the first slash, empty or not. -/
def VikingURI.parse (uri : Str) : Except AccessError VikingURI :=
  if scheme <+: uri then
    let path := uri.drop scheme.length
    if strip '/' path = [] then .ok ⟨uri, [], []⟩
    else
      let scope := cutAt '/' path
      if scope ∈ visitableScopes then .ok ⟨uri, scope, path⟩
      else
        .error (.valueError
          ("Invalid scope '".toList ++ scope
            ++ ("'. Must be one of: agent, queue, resources, session, "
              ++ "temp, upload, user").toList))
  else .error schemeError

/-!
# What the parsers return
-/

variable {parts : List Str} {uri : Str} {cc : CharClass}

theorem safeUriParts_ok
    (h : safeUriParts cc uri = .ok parts) :
    scheme <+: uri ∧ parts = segments '/' (uri.drop scheme.length) ∧
      parts.findSome? (traversalError? cc uri) = none := by
  unfold safeUriParts at h
  dsimp only at h
  split at h
  · rename_i hscheme
    split at h
    · cases h
    · rename_i hnone
      cases h
      exact ⟨hscheme, segments_strip _ _, hnone⟩
  · cases h

theorem uriParts_ok
    (h : uriParts uri = .ok parts) :
    parts = segments '/' ((cutAt '?' uri).drop scheme.length) := by
  unfold uriParts at h
  dsimp only at h
  split at h
  · split at h
    · rename_i heq
      cases h
      rw [heq, List.drop_length, segments_nil]
    · cases h
      exact segments_drop_stripRight _ _ _
  · cases h

private theorem cutAt_scheme (rest : Str) :
    cutAt '?' (scheme ++ rest) = scheme ++ cutAt '?' rest := by
  have hpos : forall c, c ∈ scheme -> decide (c ≠ '?') = true :=
    List.all_eq_true.mp (by decide)
  rw [cutAt, List.takeWhile_append_of_pos hpos]
  rfl

theorem uriParts_of_scheme (h : scheme <+: uri) :
    uriParts uri
      = .ok (segments '/' (cutAt '?' (uri.drop scheme.length))) := by
  rcases h with ⟨rest, rfl⟩
  have hcut := cutAt_scheme rest
  have hpre : scheme <+: cutAt '?' (scheme ++ rest) := by
    rw [hcut]
    exact List.prefix_append _ _
  have hparts : exists parts, uriParts (scheme ++ rest) = .ok parts := by
    unfold uriParts
    dsimp only
    rw [if_pos hpre]
    split
    · exact ⟨_, rfl⟩
    · exact ⟨_, rfl⟩
  rcases hparts with ⟨parts, hok⟩
  have heq := uriParts_ok hok
  rw [hcut, List.drop_left] at heq
  rw [hok, heq, List.drop_left]

section

variable (h : safeUriParts cc uri = .ok parts)

include h

theorem parts_agree : uriParts uri = .ok parts ∨ exists front t rest after,
      parts = front ++ (t ++ '?' :: rest) :: after ∧
      uriParts uri = .ok (front ++ if t = [] then [] else [t]) ∧
      '?' ∉ t ∧ (forall w, w ∈ front -> '?' ∉ w) := by
  rcases safeUriParts_ok h with ⟨hscheme, hparts, _⟩
  rw [uriParts_of_scheme hscheme]
  by_cases hmark : '?' ∈ uri.drop scheme.length
  · right
    rcases segments_cutAt (show '?' ≠ '/' by decide) hmark with
      ⟨front, t, rest, after, hall, hcut, hslash, hno, hfront⟩
    refine ⟨front, t, rest, after, hparts.trans hall, ?_, hno, hfront⟩
    rw [hcut]
    by_cases ht : t = []
    · simp [ht]
    · rw [segments_of_not_mem hslash ht, if_neg ht]
  · left
    rw [cutAt_of_not_mem hmark, hparts]

theorem safeUriParts_pieces : forall w, w ∈ parts -> IsPiece '/' w := by
  intro w hw
  rw [(safeUriParts_ok h).2.1] at hw
  exact ⟨(mem_segments hw).1, (mem_segments hw).2.1⟩

theorem safeUriParts_safe :
    forall w, w ∈ parts -> w ≠ ".".toList ∧ w ≠ "..".toList ∧ '\\' ∉ w := by
  intro w hw
  have hnone := List.findSome?_eq_none_iff.1 (safeUriParts_ok h).2.2 w hw
  unfold traversalError? at hnone
  split at hnone
  · cases hnone
  · rename_i hdots
    split at hnone
    · cases hnone
    · rename_i hslash
      exact ⟨fun hw => hdots (Or.inl hw), fun hw => hdots (Or.inr hw), hslash⟩

end

/-!
# Namespaces

Identifiers, request contexts and the rules that read a URI as a place in a
namespace.
-/

/-!
# Identifiers
-/

def isIdentifierChar (c : Char) : Bool :=
  c.isAlphanum || c = '_' || c = '.' || c = '@' || c = '-'

/-- The pattern ends in `$`, which also matches before a final newline. -/
def identifierBody (part : Str) : Str :=
  if part.getLast? = some '\n' then part.dropLast else part

def matchesPattern (part : Str) : Bool :=
  identifierBody part ≠ [] && (identifierBody part).all isIdentifierChar

def validateIdentifierPart (part partName : Str) : Option Str :=
  if part = [] then some (partName ++ " is empty".toList)
  else if part = ".".toList ∨ part = "..".toList then
    some (partName ++ " must not be '.' or '..'".toList)
  else if matchesPattern part = false then
    some (partName ++ " must be alpha_numeric string.".toList)
  else if 1 < part.count '@' then
    some (partName ++ " must have at most one @.".toList)
  else none

def validateAccountId (accountId : Str) : Option Str :=
  match validateIdentifierPart accountId "account_id".toList with
  | some error => some error
  | none =>
    if "_".toList <+: accountId then
      some "account_id cannot start with underscore _.".toList
    else none

def validateUserId (userId : Str) : Option Str :=
  validateIdentifierPart userId "user_id".toList

def stripSpace (cc : CharClass) (s : Str) : Str :=
  (s.dropWhile cc.isSpace).rdropWhile cc.isSpace

def normalizePeerId (cc : CharClass) (peerId : Str) :
    Except AccessError (Option Str) :=
  let normalized := stripSpace cc peerId
  if normalized = [] then .ok none
  else
    match validateIdentifierPart normalized "peer_id".toList with
    | some error => .error (.valueError ("Invalid peer_id: ".toList ++ error))
    | none => .ok (some normalized)

/-!
# Contexts
-/

inductive Role where
  | root
  | admin
  | user
  | custom (name : Str)
deriving DecidableEq

structure UserIdentifier where
  accountId : Str
  userId : Str
  validAccount : validateAccountId accountId = none
  validUser : validateUserId userId = none

structure RequestContext where
  user : UserIdentifier
  role : Role
  actorPeerId : Option Str

def RequestContext.accountId (ctx : RequestContext) : Str :=
  ctx.user.accountId

def RequestContext.userId (ctx : RequestContext) : Str :=
  ctx.user.userId

/-- An empty peer id counts as none. -/
def RequestContext.actorPeer (ctx : RequestContext) : Option Str :=
  match ctx.actorPeerId with
  | some (c :: rest) => some (c :: rest)
  | _ => none

/-!
# Resolution
-/

structure ResolvedNamespace where
  uri : Str
  scope : Str
  ownerUserId : Option Str
  isContainer : Bool
deriving DecidableEq

def joinSlash (parts : List Str) : Str :=
  ['/'].intercalate parts

def requirePeerIdSegment (cc : CharClass) (peerId : Str) :
    Except AccessError Unit :=
  match normalizePeerId cc peerId with
  | .ok (some _) => .ok ()
  | .ok none => .error (.namespaceShape "peer_id must not be empty".toList)
  | .error (.valueError message) => .error (.namespaceShape message)
  | .error error => .error error

def validatePeerIdSegments (cc : CharClass) (parts : List Str) :
    Except AccessError Unit :=
  match parts with
  | scope :: _ :: third :: peer :: _ =>
    if scope = "user".toList ∧ third = "peers".toList then
      requirePeerIdSegment cc peer
    else .ok ()
  | _ => .ok ()

def resolveUserUri (cc : CharClass) (parts : List Str) :
    Except AccessError ResolvedNamespace :=
  match parts with
  | _ :: userId :: suffix =>
    match validateUserId userId with
    | some error =>
      .error (.namespaceShape ("Invalid user_id: ".toList ++ error))
    | none =>
      let root := "viking://user/".toList ++ userId
      if suffix = [] then .ok ⟨root, "user".toList, some userId, false⟩
      else do
        validatePeerIdSegments cc parts
        return ⟨root ++ '/' :: joinSlash suffix, "user".toList, some userId,
          false⟩
  | _ => .ok ⟨"viking://user".toList, "user".toList, none, true⟩

def resolveUri (cc : CharClass) (uri : Str) :
    Except AccessError ResolvedNamespace := do
  let parsed ← VikingURI.parse uri
  let stripped := stripRight '/' parsed.uri
  let canonical := if stripped = [] then scheme else stripped
  let parts ← uriParts uri
  match parts with
  | [] => return ⟨scheme, [], none, true⟩
  | scope :: _ =>
    if scope = "user".toList then resolveUserUri cc parts
    else if scope = "agent".toList then
      return ⟨canonical, scope, none, false⟩
    else if scope = "~".toList then
      .error (.namespaceShape
        ("Home alias URI is not canonical: ".toList ++ joinSlash parts))
    else if scope = "session".toList then
      .error (.namespaceShape
        ("Legacy session URI is not canonical: ".toList ++ joinSlash parts))
    else return ⟨canonical, scope, none, false⟩

/-- The owner of a URI, or none where the URI is no canonical one. -/
def ownerUserIdForUri (cc : CharClass) (uri : Str) : Option Str :=
  match resolveUri cc uri with
  | .ok resolved => resolved.ownerUserId
  | .error _ => none

/-!
# Access rules
-/

def openScopes : List Str :=
  [[], "resources".toList, "temp".toList, "queue".toList]

def namespaceIsAccessible (cc : CharClass) (uri : Str) (ctx : RequestContext) :
    Except AccessError Bool :=
  if ctx.role = .root then .ok true
  else
    match resolveUri cc uri with
    | .error (.namespaceShape _) => .ok false
    | .error error => .error error
    | .ok target =>
      if target.scope ∈ openScopes then .ok true
      else if target.scope = "upload".toList then .ok false
      else if target.scope = "user".toList then
        match target.ownerUserId with
        | some owner => .ok (owner = [] || owner = ctx.userId)
        | none => .ok true
      else if target.scope = "agent".toList then do
        let parts ← uriParts target.uri
        match ctx.actorPeer, parts with
        | some peer, _ :: second :: _ => return second = peer
        | _, _ => return true
      else .ok true

/-- The part of a URI below the caller's root, when the peers are filtered. -/
def actorPeerViewUserSuffix (cc : CharClass) (uri : Str) (ctx : RequestContext) :
    Except AccessError (Option (List Str)) :=
  match ctx.actorPeer with
  | none => .ok none
  | some _ =>
    match resolveUri cc uri with
    | .error (.namespaceShape _) => .ok none
    | .error error => .error error
    | .ok _ => do
        let parts ← uriParts uri
        match parts with
        | scope :: owner :: suffix =>
          if scope = "user".toList ∧ owner = ctx.userId then
            return some suffix
          else return none
        | _ => return none

def isHiddenByActorPeerView (cc : CharClass) (uri : Str) (ctx : RequestContext) :
    Except AccessError Bool := do
  match ← actorPeerViewUserSuffix cc uri ctx with
  | some (first :: second :: _) =>
    return first = "peers".toList && some second ≠ ctx.actorPeerId
  | _ => return false

def mayIncludeHiddenActorPeers (cc : CharClass) (uri : Str)
    (ctx : RequestContext) : Except AccessError Bool := do
  match ← actorPeerViewUserSuffix cc uri ctx with
  | some suffix => return suffix = [] || suffix = ["peers".toList]
  | none => return false

def watchTaskControlNames : List Str :=
  [".watch_tasks.json".toList, ".watch_tasks.json.bak".toList,
    ".watch_tasks.json.tmp".toList]

def isWatchTaskControlUri (uri : Str) : Except AccessError Bool := do
  match ← uriParts uri with
  | [scope, name] =>
    return scope = "resources".toList && name ∈ watchTaskControlNames
  | _ => return false

end Access
end OpenViking
