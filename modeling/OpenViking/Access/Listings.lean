import OpenViking.Access.Guards

/-!
# Limited listings

The tree and the glob of a directory show the entries that the caller may see.
The storage lists in one fixed order and is asked for more than the limit, as
what the caller may not see does not count.
-/

namespace OpenViking
namespace Access

open Paths Segments

/-!
# Visible entries
-/

def listableScopes : List Str :=
  ["resources".toList, "user".toList, "agent".toList]

def storageInternalEntryNames : List Str :=
  ["_system".toList, "tasks".toList, ".path.ovlock".toList,
    ".redirect.json".toList, ".sync_log.json".toList]

def pathParts (path : Str) : List Str :=
  segments '/' (strip '/' path)

def pathOfParts (parts : List Str) : Str :=
  if parts = [] then ['/'] else '/' :: joinSlash parts

def isNameVisibleAtPath (name parentPath : Str) : Bool :=
  let parts := pathParts parentPath
  if parts.length = 2 ∧ parts.head? = some "local".toList then
    decide (name ∈ listableScopes)
  else decide (name ∉ storageInternalEntryNames)

def ancestorIsFiltered (entryPath basePath : Str) : Bool :=
  let baseParts := pathParts basePath
  let entryParts := pathParts entryPath
  (List.range' baseParts.length (entryParts.length - 1 - baseParts.length)).any
    fun i => !isNameVisibleAtPath (entryParts.getD i [])
      (pathOfParts (entryParts.take i))

def pathToUri (path : Str) (ctx : RequestContext) : Except AccessError Str :=
  if "/local/".toList <+: path then
    let parts := segments '/' (strip '/' (path.drop 7))
    let below := if parts.head? = some ctx.accountId then parts.tail else parts
    .ok (scheme ++ joinSlash below)
  else
    .error (.valueError
      ("AGFS path must start with '/local/': ".toList ++ path))

variable (fs : VikingFS)

def isPathEntryVisible (entryPath name basePath : Str)
    (ctx : RequestContext) : Except AccessError Bool := do
  if ancestorIsFiltered entryPath basePath then return false
  else
    let parts := pathParts entryPath
    if parts ≠ [] ∧ isNameVisibleAtPath name (pathOfParts parts.dropLast) = false then
      return false
    else isAccessible fs (← pathToUri entryPath ctx) ctx

/-!
# Where a listing reads
-/

inductive ListingError where
  | access (error : AccessError)
  | notFound (uri : Str)
  | invalidArgument (message : Str)
  | storage (message : Str)
deriving DecidableEq

instance : MonadLift (Except AccessError) (Except ListingError) where
  monadLift := Except.mapError ListingError.access

structure Entry where
  path : Str
  name : Str
deriving DecidableEq

/-- What the listings read of the storage.  The entries of a directory and the
matches of a pattern come in one fixed order. -/
structure Storage where
  pathExists : Str -> Except ListingError Bool
  looksLikeLegacySessionDir : Str -> Except ListingError Bool
  legacySessionOwner : Str -> Except ListingError Str
  treeEntries : Str -> Bool -> Option Nat -> List Entry
  globEntries : Str -> Str -> List Entry

def legacySessionAlias (uri : Str) :
    Except AccessError (Option Str) := do
  match ← safeUriParts fs.charClass uri with
  | scope :: _ :: third :: suffix =>
    if scope = "user".toList ∧ third = "sessions".toList then
      return some ("viking://session".toList ++
        if suffix = [] then [] else '/' :: joinSlash suffix)
    else return none
  | _ => return none

def isSessionRootUri (uri : Str) : Except AccessError Bool := do
  return (← legacySessionAlias fs uri) = some "viking://session".toList

def legacyPath (parts : List Str) (ctx : RequestContext) : Str :=
  accountRoot ctx.accountId ++
    '/' :: joinSlash (parts.map fun p => shortenComponent fs.digest p maxFilenameBytes)

def legacyUserSessionPath (uri : Str) (ctx : RequestContext) :
    Except AccessError (List Str) := do
  match ← safeUriParts fs.charClass uri with
  | scope :: owner :: third :: first :: suffix =>
    if scope = "user".toList ∧ third = "sessions".toList then
      return [legacyPath fs ("session".toList :: owner :: first :: suffix) ctx]
    else return []
  | _ => return []

/-- The path of a URI and, for a session, the older paths it may be stored at. -/
def readPaths (uri : Str) (ctx : RequestContext) :
    Except AccessError (List Str) := do
  let path ← uriToPath fs uri ctx
  match ← legacySessionAlias fs uri with
  | none => return [path]
  | some legacyUri =>
    let direct := legacyPath fs (← safeUriParts fs.charClass legacyUri) ctx
    let nested ← legacyUserSessionPath fs uri ctx
    return (path :: direct :: nested).dedup

variable (storage : Storage)

def legacySessionPathVisible (path owner : Str) :
    Except ListingError Bool := do
  let parts := pathParts path
  let root := parts.takeWhile fun p => p ≠ "session".toList
  let pathIn := fun suffix => pathOfParts (root ++ "session".toList :: suffix)
  match parts.drop (root.length + 1) with
  | [] => return true
  | first :: rest =>
    if ← storage.looksLikeLegacySessionDir (pathIn [first]) then
      let found ← storage.legacySessionOwner (pathIn [first])
      return found ≠ [] && found = owner
    else
      match rest with
      | [] => return true
      | second :: _ =>
        if first ≠ owner then return false
        else if ← storage.looksLikeLegacySessionDir (pathIn [first, second]) then
          let found ← storage.legacySessionOwner (pathIn [first, second])
          return found = [] || found = owner
        else return true

def readPathVisible (fs : VikingFS)
    (requestUri path primaryPath : Str) : Except ListingError Bool := do
  if path = primaryPath then return true
  else
    match ← legacySessionAlias fs requestUri, ← safeUriParts fs.charClass requestUri with
    | some _, _ :: owner :: _ => legacySessionPathVisible storage path owner
    | _, _ => return true

/-- The first candidate that the caller may read and that exists. -/
def findReadable (storage : Storage) (fs : VikingFS) (uri primaryPath : Str) :
    List Str -> Except ListingError (Option Str)
  | [] => return none
  | candidate :: rest => do
    if !(← readPathVisible storage fs uri candidate primaryPath) then
      findReadable storage fs uri primaryPath rest
    else if ← storage.pathExists candidate then return some candidate
    else findReadable storage fs uri primaryPath rest

def isLegacyAgentIdUri (parts : List Str) : Bool :=
  match parts with
  | scope :: second :: _ => scope = "agent".toList && second ∉ agentScopes
  | _ => false

def aliasUriForPath (requestUri basePath entryPath : Str)
    (ctx : RequestContext) : Except AccessError Str := do
  let base := stripRight '/' basePath
  let requestParts ← safeUriParts fs.charClass requestUri
  let requestRoot :=
    if requestUri = scheme then requestUri else stripRight '/' requestUri
  let preserve := requestUri = scheme || requestUri = "viking://user".toList ||
    isLegacyAgentIdUri requestParts
  if base <+: entryPath then
    let relPath := strip '/' (entryPath.drop base.length)
    let separator := if "://".toList <:+ requestRoot then [] else ['/']
    let candidate :=
      if relPath = [] then requestRoot else requestRoot ++ separator ++ relPath
    if (← legacySessionAlias fs requestUri).isSome || preserve then return candidate
    else
      match uriToPath fs candidate ctx with
      | .ok path =>
        if path = entryPath then return candidate else pathToUri entryPath ctx
      | .error _ => pathToUri entryPath ctx
  else pathToUri entryPath ctx

/-!
# Tree and glob
-/

/-- What every listing fixes before it reads entries. -/
structure Listing where
  fs : VikingFS
  storage : Storage
  ctx : RequestContext
  uri : Str
  primaryPath : Str
  path : Str

/-- The last part of a path, for an entry without a name. -/
def basename (path : Str) : Str :=
  (path.splitOn '/').getLastD []

/-- The URI of an entry that is shown. -/
def Listing.visit (r : Listing) (name : Entry -> Str) (entry : Entry) :
    Except ListingError (Option Str) := do
  if !(← isPathEntryVisible r.fs entry.path (name entry) r.path r.ctx) then
    return none
  else if !(← readPathVisible r.storage r.fs r.uri entry.path r.primaryPath) then
    return none
  else return some (← aliasUriForPath r.fs r.uri r.path entry.path r.ctx)

def limitReached (limit : Option Nat) (found : Nat) : Bool :=
  match limit with
  | none => false
  | some n => decide (n ≤ found)

theorem limitReached_of_le {n found : Nat} (h : n ≤ found) :
    limitReached (some n) found = true :=
  decide_eq_true h

/-- The loop over listed entries, which ends at the limit. -/
def collect (visit : Entry -> Except ListingError (Option Str))
    (limit : Option Nat) :
    List Entry -> List (Entry × Str) -> Except ListingError (List (Entry × Str))
  | [], found => .ok found
  | entry :: rest, found =>
    if limitReached limit found.length then .ok found
    else
      match visit entry with
      | .error error => .error error
      | .ok none => collect visit limit rest found
      | .ok (some uri) => collect visit limit rest (found ++ [(entry, uri)])

def treeOverfetchFactor : Nat := 4

/-- The entries that the storage lists, cut off after `rawLimit`. -/
def rawLimit (nodeLimit round : Nat) : Nat :=
  max (nodeLimit * treeOverfetchFactor) nodeLimit * 2 ^ round

theorem rawLimit_pos {nodeLimit : Nat} (h : 0 < nodeLimit) (round : Nat) :
    0 < rawLimit nodeLimit round :=
  Nat.mul_pos (Nat.lt_of_lt_of_le h (Nat.le_max_right _ _)) (Nat.two_pow_pos round)

theorem rawLimit_succ (nodeLimit round : Nat) :
    rawLimit nodeLimit (round + 1) = rawLimit nodeLimit round * 2 := by
  rw [rawLimit, rawLimit, Nat.pow_succ, Nat.mul_assoc]

/-- A round that finds too few visible entries in a full page is followed by one
with twice the raw limit. -/
def treeRounds (visit : Entry -> Except ListingError (Option Str))
    (entries : List Entry) (nodeLimit round : Nat) :
    Except ListingError (List (Entry × Str)) :=
  let raw := entries.take (rawLimit nodeLimit round)
  match collect visit (some nodeLimit) raw [] with
  | .error error => .error error
  | .ok visible =>
    if visible.length < nodeLimit ∧ rawLimit nodeLimit round ≤ raw.length then
      treeRounds visit entries nodeLimit (round + 1)
    else .ok visible
termination_by entries.length + 1 - rawLimit nodeLimit round
decreasing_by
  rename_i h
  have hlen : rawLimit nodeLimit round ≤ entries.length := by
    have hraw := h.2
    simp only [raw, List.length_take] at hraw
    omega
  have hpos := rawLimit_pos (Nat.zero_lt_of_lt h.1) round
  rw [rawLimit_succ]
  omega

/-- No limit and a limit of zero ask for pages of the default size. -/
def globPageSize (nodeLimit : Option Nat) : Nat :=
  match nodeLimit with
  | none | some 0 => 1024
  | some n => n

theorem globPageSize_pos (nodeLimit : Option Nat) : 0 < globPageSize nodeLimit := by
  unfold globPageSize
  split
  · decide
  · decide
  · rename_i n hne
    exact Nat.pos_of_ne_zero fun hzero => hne (by rw [hzero])

/-- A limit of zero is none. -/
def globLimit (nodeLimit : Option Nat) : Option Nat :=
  match nodeLimit with
  | some 0 => none
  | limit => limit

/-- The pages of a glob; a continuation token stands for an offset. -/
def globRounds (visit : Entry -> Except ListingError (Option Str))
    (entries : List Entry) (nodeLimit : Option Nat) (offset : Nat)
    (found : List (Entry × Str)) : Except ListingError (List (Entry × Str)) :=
  let size := globPageSize nodeLimit
  match collect visit (globLimit nodeLimit) ((entries.drop offset).take size) found with
  | .error error => .error error
  | .ok found =>
    if limitReached (globLimit nodeLimit) found.length then .ok found
    else if _h : offset + size < entries.length then
      globRounds visit entries nodeLimit (offset + size) found
    else .ok found
termination_by entries.length - offset
decreasing_by
  have hpos := globPageSize_pos nodeLimit
  simp only [size] at _h ⊢
  omega

/-- What both listings do first: the primary path and the path that is read.  None
is an empty listing. -/
def resolveListing (fs : VikingFS) (ctx : RequestContext)
    (uri : Str) : Except ListingError (Option (Str × Str)) := do
  let _ ← ensureAccess fs uri ctx
  let primaryPath ← uriToPath fs uri ctx
  let candidates ← readPaths fs uri ctx
  match ← findReadable storage fs uri primaryPath candidates with
  | some path => return some (primaryPath, path)
  | none =>
    if ← isSessionRootUri fs uri then return none
    else .error (.notFound uri)

def treeName (entry : Entry) : Str :=
  if entry.name = [] then basename (stripRight '/' entry.path) else entry.name

def globName (entry : Entry) : Str :=
  if entry.name = [] then basename entry.path else entry.name

def tree (fs : VikingFS) (ctx : RequestContext) (uri : Str)
    (showAllHidden : Bool) (levelLimit nodeLimit : Option Nat) :
    Except ListingError (List (Entry × Str)) :=
  match resolveListing storage fs ctx uri with
  | .error error => .error error
  | .ok none => .ok []
  | .ok (some (primaryPath, path)) =>
    let r : Listing := ⟨fs, storage, ctx, uri, primaryPath, path⟩
    let entries := storage.treeEntries path showAllHidden levelLimit
    match nodeLimit with
    | none => collect (r.visit treeName) none entries []
    | some n => treeRounds (r.visit treeName) entries n 0

def glob (fs : VikingFS) (ctx : RequestContext)
    (pattern uri : Str) (nodeLimit : Option Nat) :
    Except ListingError (List (Entry × Str)) :=
  if pattern.all fs.charClass.isSpace then
    .error (.invalidArgument "Search query or image_url must not be empty.".toList)
  else
    match resolveListing storage fs ctx uri with
    | .error error => .error error
    | .ok none => .ok []
    | .ok (some (primaryPath, path)) =>
      let r : Listing := ⟨fs, storage, ctx, uri, primaryPath, path⟩
      globRounds (r.visit globName) (storage.globEntries path pattern) nodeLimit 0 []

end Access
end OpenViking
