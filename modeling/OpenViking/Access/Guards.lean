import OpenViking.Access.Namespace

/-!
# Storage paths and guards

The storage path of a URI, and the checks that VikingFS makes before it reads,
writes or deletes there.
-/

namespace OpenViking
namespace Access

open Paths Segments

def hexChars : List Char := "0123456789abcdef".toList

/-- The first eight hexadecimal digits of a hash of a text. -/
structure Digest where
  hex : Str -> Str
  length_hex : forall s, (hex s).length = 8
  hex_chars : forall s c, c ∈ hex s -> c ∈ hexChars

/-- The parts of a VikingFS that its access checks read. -/
structure VikingFS where
  charClass : CharClass
  digest : Digest
  userDeletionGuard : Option (Str -> Str -> Bool)

/-!
# Storage paths
-/

def maxFilenameBytes : Nat := 255

/-- The number of bytes of the UTF-8 encoding. -/
def utf8Length (s : Str) : Nat :=
  (s.map Char.utf8Size).sum

/-- Characters are taken off the end, which comes first here, until the rest
is short enough. -/
def trimReversed (target : Nat) : Str -> Str
  | [] => []
  | c :: rest =>
    if target < utf8Length (c :: rest) then trimReversed target rest
    else c :: rest

def shortenComponent (digest : Digest) (component : Str) (maxBytes : Nat) :
    Str :=
  if utf8Length component ≤ maxBytes then component
  else
    let ending := '_' :: digest.hex component
    let target := maxBytes - utf8Length ending
    (trimReversed target component.reverse).reverse ++ ending

def accountRoot (accountId : Str) : Str :=
  "/local/".toList ++ accountId

def agentScopes : List Str :=
  ["skills".toList, "endpoints".toList, "tools".toList, "payments".toList]

variable (fs : VikingFS)

/-- The old agent form has a branch of its own, which maps it the same way. -/
def uriToPath (uri : Str) (ctx : RequestContext) :
    Except AccessError Str := do
  let parts ← safeUriParts fs.charClass uri
  if parts.head? = some "session".toList then
    .error (.valueError
      ("Legacy session URI is not accepted internally: ".toList ++ uri))
  else if parts = [] then return accountRoot ctx.accountId
  else
    let safeParts :=
      parts.map (fun p => shortenComponent fs.digest p maxFilenameBytes)
    return accountRoot ctx.accountId ++ '/' :: joinSlash safeParts

/-!
# Visibility
-/

/-- The pattern ends in `$`, which also matches before a final newline. -/
def looksLikeLegacyTempLeaf (cc : CharClass) (value : Str) : Bool :=
  let leaf := if value.getLast? = some '\n' then value.dropLast else value
  leaf.length = 15 && (leaf.take 8).all cc.isDigit &&
    leaf[8]? = some '_' && (leaf.drop 9).all (fun c => c ∈ hexChars)

def isLegacyTempUriParts (cc : CharClass) (parts : List Str) : Bool :=
  match parts with
  | [scope, leaf] => scope = "temp".toList && looksLikeLegacyTempLeaf cc leaf
  | scope :: leaf :: third :: _ =>
    scope = "temp".toList && looksLikeLegacyTempLeaf cc leaf &&
      !looksLikeLegacyTempLeaf cc third
  | _ => false

/-- The agent scope: shared roots, and the caller's own peer of the old form. -/
def agentIsAccessible (parts : List Str) (ctx : RequestContext) : Bool :=
  match parts, ctx.actorPeer with
  | _ :: second :: _, some peer => second ∈ agentScopes || second = peer
  | _, _ => true

def isAccessible (uri : Str) (ctx : RequestContext) :
    Except AccessError Bool := do
  let parts ← safeUriParts fs.charClass uri
  if ctx.role = .root then return true
  else if ← isHiddenByActorPeerView fs.charClass uri ctx then return false
  else
    match parts with
    | [] => return true
    | scope :: rest =>
      if ← isWatchTaskControlUri uri then return false
      else if scope = "resources".toList then return true
      else if scope = "temp".toList then
        match rest with
        | [] => return true
        | second :: _ =>
          if second = ctx.userId then return true
          else return isLegacyTempUriParts fs.charClass parts
      else if scope = "upload".toList then return false
      else if scope = "_system".toList then return false
      else if scope = "agent".toList then return agentIsAccessible parts ctx
      else namespaceIsAccessible fs.charClass uri ctx

/-!
# Guards
-/

def accessDenied (uri : Str) : AccessError :=
  .permissionDenied ("Access denied for ".toList ++ uri) uri

def tempReadOnly (uri : Str) : AccessError :=
  .permissionDenied "Temp root is read-only for non-root users".toList uri

def ensureAccess (uri : Str) (ctx : RequestContext) :
    Except AccessError Unit := do
  if ← isAccessible fs uri ctx then return ()
  else .error (accessDenied uri)

def ensureUserNotDeleting (ctx : RequestContext) :
    Except AccessError Unit :=
  match fs.userDeletionGuard with
  | some deleting =>
    if ctx.role ≠ .root ∧ deleting ctx.accountId ctx.userId = true then
      .error (.failedPrecondition "User deletion is in progress".toList)
    else .ok ()
  | none => .ok ()

/-- The parts that the two namespace checks read, after the scheme is cut off
unseen. -/
def rawParts (normalizedUri : Str) : List Str :=
  segments '/' (strip '/' (normalizedUri.drop scheme.length))

def ensureSupportedDeleteNamespace (normalizedUri : Str) :
    Except AccessError Unit :=
  let parts := rawParts normalizedUri
  if parts = [] then
    .error (.permissionDenied
      "Deleting viking:// is not supported; use a concrete scope instead.".toList
      normalizedUri)
  else if parts = ["user".toList] then
    .error (.permissionDenied
      ("Deleting viking://user is not supported; use viking://~/... or an "
        ++ "explicit viking://user/{user_id}/... path instead.").toList
      normalizedUri)
  else if parts = ["agent".toList] then
    .error (.permissionDenied
      ("Deleting viking://agent root is not supported; use a concrete "
        ++ "agent sub-path (e.g. viking://agent/skills/...) instead.").toList
      normalizedUri)
  else .ok ()

def ensureSupportedWriteNamespace (normalizedUri : Str) :
    Except AccessError Unit :=
  let parts := rawParts normalizedUri
  if parts = ["user".toList] then
    .error (.permissionDenied
      ("Writing viking://user is not supported; use viking://~/... or an "
        ++ "explicit viking://user/{user_id}/... path instead.").toList
      normalizedUri)
  else
    match parts with
    | [] => .ok ()
    | scope :: rest =>
      if scope = "session".toList then
        .error (.permissionDenied
          ("Writing ".toList ++ normalizedUri
            ++ " is not supported; use user-owned namespaces instead.".toList)
          normalizedUri)
      else if scope = "agent".toList then
        match rest with
        | [] =>
          .error (.permissionDenied
            "Writing to viking://agent root is not supported.".toList
            normalizedUri)
        | second :: _ =>
          if second ∈ agentScopes then .ok ()
          else
            .error (.permissionDenied
              ("viking://agent/{agent_id} is deprecated. "
                ++ "Use viking://user/.../peers/{agent_id} instead.").toList
              normalizedUri)
      else .ok ()

/-- What the write and the delete checks have in common. -/
def ensureUnhidden (uri : Str) (ctx : RequestContext) :
    Except AccessError Unit := do
  ensureAccess fs uri ctx
  ensureUserNotDeleting fs ctx
  if ← isHiddenByActorPeerView fs.charClass uri ctx then
    .error (accessDenied uri)
  else if ← mayIncludeHiddenActorPeers fs.charClass uri ctx then
    .error (accessDenied uri)
  else return ()

def ensureTempWritable (uri : Str) (ctx : RequestContext) :
    Except AccessError Unit :=
  if ctx.role ≠ .root ∧ stripRight '/' uri = "viking://temp".toList then
    .error (tempReadOnly uri)
  else .ok ()

def ensureMutableAccess (uri : Str) (ctx : RequestContext) :
    Except AccessError Unit := do
  ensureUnhidden fs uri ctx
  ensureSupportedWriteNamespace uri
  ensureTempWritable uri ctx

/-- The namespace roots that only the root role may delete. -/
def isNamespaceRoot (parts : List Str) : Bool :=
  parts = ["resources".toList] ||
    (parts.head? = some "user".toList && parts.length = 2)

def ensureDeleteAccess (uri : Str) (ctx : RequestContext) :
    Except AccessError Unit := do
  ensureUnhidden fs uri ctx
  ensureSupportedDeleteNamespace uri
  let canonicalParts ← safeUriParts fs.charClass uri
  if ctx.role ≠ .root ∧ isNamespaceRoot canonicalParts = true then
    .error (.permissionDenied
      ("Deleting a namespace root requires root access; use a concrete content "
        ++ "path instead.").toList
      uri)
  else ensureTempWritable uri ctx

end Access
end OpenViking
