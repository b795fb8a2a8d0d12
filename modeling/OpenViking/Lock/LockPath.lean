import Mathlib.Data.List.DropRight
import OpenViking.Common.Attempt
import OpenViking.Common.Decimal

/-!
# Lock tokens and lock paths

A lock is a token under a lock path.  A directory, or a tree, is locked by a
file inside it, anything else by a file beside it whose name has a hash of the
path.  The SHA-1 digest comes from another crate, so the hash is a parameter.
-/

namespace OpenViking
namespace Lock

open Paths List

inductive PathLockKind where
  | exact
  | tree
deriving DecidableEq

structure LockToken where
  ownerId : Str
  timeNs : Nat
  lockType : PathLockKind
deriving DecidableEq

structure PathLockRequest where
  path : Str
  kind : PathLockKind
deriving DecidableEq

inductive PathLockError where
  | conflict (lockPath owner : Str) (kind : PathLockKind)
  | timeout (elapsedMs : Nat)
  | busy (lockPath operation : Str)
  | io (message : Str)
  | invalidToken (message : Str)
  | invalidRequest (message : Str)
  | internal (message : Str)
deriving DecidableEq

/-- The text of an error. -/
def PathLockError.display : PathLockError -> Str
  | conflict lockPath owner _ =>
    "lock conflict on '".toList ++ lockPath ++ "': owned by '".toList ++
      owner ++ "'".toList
  | timeout elapsedMs =>
    "lock acquire timed out after ".toList ++ decimal elapsedMs ++
      "ms".toList
  | busy lockPath operation =>
    "lock busy at '".toList ++ lockPath ++ "' during ".toList ++ operation
  | io message => "lock I/O error: ".toList ++ message
  | invalidToken message => "invalid lock token: ".toList ++ message
  | invalidRequest message => "invalid lock request: ".toList ++ message
  | internal message => "lock internal error: ".toList ++ message

/-- `is_retryable_error`. -/
def PathLockError.isRetryable : PathLockError -> Bool
  | conflict _ _ _ => true
  | busy _ _ => true
  | _ => false

/-!
# Path texts
-/

variable (path : Str)

/-- `trim_end_matches('/')`. -/
def trimSlashes : Str :=
  path.rdropWhile fun c => c == '/'

def normalizePath : Str :=
  if trimSlashes path = [] then ['/'] else trimSlashes path

/-- The text before the last slash and the text after it. -/
def rsplitOnce : Option (Str × Str) :=
  if '/' ∈ path then
    some ((path.reverse.dropWhile fun c => c != '/').tail.reverse,
      (path.reverse.takeWhile fun c => c != '/').reverse)
  else
    none

def pathLockFile : Str := ".path.ovlock".toList

def exactLockFilePrefix : Str := ".exact.ovlock.".toList

def pathLockPath : Str :=
  trimSlashes path ++ '/' :: pathLockFile

def splitParentName : Str × Str :=
  match rsplitOnce (trimSlashes path) with
  | some (parent, name) => if parent ≠ [] then (parent, name) else (['/'], name)
  | none => (['/'], trimSlashes path)

def isSafeChar (c : Char) : Bool :=
  c.isAlphanum || c == '.' || c == '_' || c == '-'

/-- Every run of other characters becomes one underscore. -/
def sanitize : Bool -> Str -> Str
  | _, [] => []
  | replacing, c :: rest =>
    if isSafeChar c then c :: sanitize false rest
    else if replacing then sanitize true rest
    else '_' :: sanitize true rest

def safeName (name : Str) : Str :=
  let trimmed := ((sanitize false name).dropWhile fun c =>
    c == '.' || c == '_').rdropWhile fun c => c == '.' || c == '_'
  (if trimmed = [] then "path".toList else trimmed).take 80

/-- The lock file beside a path; `hashPrefix` is the hash of the full path. -/
def prefixedExactLockPath (hashPrefix : Str -> Str) (path : Str) : Str :=
  (splitParentName path).1 ++ '/' :: exactLockFilePrefix ++
    safeName (splitParentName path).2 ++ '.' :: hashPrefix path

/-!
# Requests
-/

/-- The byte length of a text. -/
def byteLen (s : Str) : Nat :=
  (s.map Char.utf8Size).sum

def requestLe (a b : PathLockRequest) : Bool :=
  decide (byteLen a.path < byteLen b.path ∨
    (byteLen a.path = byteLen b.path ∧ a.path ≤ b.path))

/-- A request joins what is already asked for its path, and `Tree` wins. -/
def mergeRequest (merged : List PathLockRequest) (request : PathLockRequest) :
    List PathLockRequest :=
  let path := normalizePath request.path
  if merged.any fun r => r.path == path then
    merged.map fun r =>
      if r.path = path ∧ request.kind = PathLockKind.tree then
        { r with kind := PathLockKind.tree }
      else r
  else
    merged ++ [{ path := path, kind := request.kind }]

def normalizeRequests (requests : List PathLockRequest) :
    List PathLockRequest :=
  (requests.foldl mergeRequest []).mergeSort requestLe

@[simp] theorem normalizeRequests_singleton (request : PathLockRequest) :
    normalizeRequests [request] =
      [{ path := normalizePath request.path, kind := request.kind }] := by
  rw [normalizeRequests]
  simp [mergeRequest]

/-!
# The ancestors of a path
-/

/-- One step of the walk to the root. -/
def parentOf (current : Str) : Option Str :=
  match rsplitOnce current with
  | some (p, _) =>
    if p ≠ [] then some p
    else if current ≠ ['/'] then some ['/']
    else none
  | none => none

def walk : Nat -> Str -> List Str
  | 0, _ => []
  | fuel + 1, current =>
    match parentOf current with
    | some parent => parent :: walk fuel parent
    | none => []

/-- The walk of a path; every step makes the text shorter. -/
def ancestors : List Str :=
  walk path.length path

def ancestorLock (parent : Str) : Str :=
  if parent = ['/'] then '/' :: pathLockFile
  else parent ++ '/' :: pathLockFile

theorem rsplitOnce_append_slash (p : Str) :
    rsplitOnce (p ++ ['/']) = some (p, []) := by
  rw [rsplitOnce, if_pos (by simp)]
  simp

theorem parentOf_append_slash {p : Str} (hp : p ≠ []) :
    parentOf (p ++ ['/']) = some p := by
  rw [parentOf, rsplitOnce_append_slash]
  simp [hp]

variable {current : Str}

theorem length_of_rsplitOnce {parts : Str × Str}
    (h : rsplitOnce current = some parts) :
    parts.1.length < current.length := by
  rw [rsplitOnce] at h
  split at h
  · rename_i hmem
    cases h
    have hdrop : (current.reverse.dropWhile fun c => c != '/') ≠ [] := by
      intro hnil
      have hall := dropWhile_eq_nil_iff.mp hnil '/'
        (mem_reverse.mpr hmem)
      simp at hall
    have hle : (current.reverse.dropWhile fun c => c != '/').length ≤
        current.reverse.length := (dropWhile_suffix _).length_le
    have hpos := length_pos_iff.mpr hdrop
    rw [length_reverse] at hle
    rw [length_reverse, length_tail]
    omega
  · cases h

theorem length_parentOf {parent : Str}
    (h : parentOf current = some parent) : parent.length < current.length := by
  rw [parentOf] at h
  cases hsplit : rsplitOnce current with
  | none =>
    rw [hsplit] at h
    cases h
  | some parts =>
    have hlt := length_of_rsplitOnce hsplit
    rw [hsplit] at h
    simp only at h
    split at h
    · cases h
      exact hlt
    split at h
    · rename_i hroot
      cases h
      cases current with
      | nil => cases hlt
      | cons c rest =>
        cases rest with
        | nil =>
          rw [rsplitOnce] at hsplit
          split at hsplit
          · rename_i hmem
            rw [mem_singleton] at hmem
            exact absurd (by rw [hmem]) hroot
          · cases hsplit
        | cons d rest => simp
    · cases h

theorem walk_of_length_le {fuel : Nat}
    (h : current.length ≤ fuel) : walk fuel current = ancestors current := by
  rw [ancestors]
  induction fuel using Nat.strong_induction_on generalizing current with
  | _ fuel ih =>
    cases fuel with
    | zero =>
      rw [length_eq_zero_iff.mp (Nat.le_zero.mp h)]
      rfl
    | succ n =>
      cases hlen : current.length with
      | zero =>
        rw [length_eq_zero_iff.mp hlen]
        rfl
      | succ m =>
        rw [walk, walk]
        cases hparent : parentOf current with
        | none => rfl
        | some parent =>
          have hlt := length_parentOf hparent
          have hleft : walk n parent = walk parent.length parent :=
            ih n (Nat.lt_succ_self n) (by omega)
          have hright : walk m parent = walk parent.length parent :=
            ih m (by omega) (by omega)
          simp only [hleft, hright]

theorem ancestors_of_parent {parent : Str} (h : parentOf current = some parent) :
    ancestors current = parent :: ancestors parent := by
  have hlt := length_parentOf h
  rw [ancestors]
  cases hlen : current.length with
  | zero => omega
  | succ n =>
    rw [walk, h]
    simp only
    rw [walk_of_length_le (by omega)]

theorem ancestors_append_slashes {p : Str} (hp : p ≠ []) (k : Nat) :
    ancestors (p ++ replicate k '/') =
      (range k).reverse.map (fun i => p ++ replicate i '/') ++
        ancestors p := by
  induction k with
  | zero => simp
  | succ k ih =>
    have hne : p ++ replicate k '/' ≠ [] := by simp [hp]
    rw [replicate_succ', ← append_assoc,
      ancestors_of_parent (parentOf_append_slash hne), ih,
      range_succ, reverse_append]
    rfl

theorem exists_slashes {path : Str} (h : path.head? = some '/') :
    exists k, path = normalizePath path ++ replicate k '/' := by
  have hparts : trimSlashes path ++ path.rtakeWhile (fun c => c == '/') =
      path := rdropWhile_append_rtakeWhile
  have hslashes : path.rtakeWhile (fun c => c == '/') =
      replicate (path.rtakeWhile fun c => c == '/').length '/' := by
    rw [eq_replicate_iff]
    refine ⟨rfl, fun c hc => ?_⟩
    have hslash : (c == '/') = true :=
      mem_rtakeWhile_imp (p := fun c => c == '/') hc
    exact eq_of_beq hslash
  rw [normalizePath]
  split
  · rename_i hnil
    rw [hnil, nil_append] at hparts
    rw [hparts] at hslashes
    refine ⟨path.length - 1, ?_⟩
    cases hpath : path with
    | nil =>
      rw [hpath] at h
      cases h
    | cons c rest =>
      rw [hpath, length_cons, replicate_succ] at hslashes
      exact hslashes
  · exact ⟨_, by rw [<- hslashes, hparts]⟩

theorem normalizePath_ne_nil : normalizePath path ≠ [] := by
  rw [normalizePath]
  split
  · exact cons_ne_nil _ _
  · assumption

theorem trimSlashes_normalizePath :
    trimSlashes (normalizePath path) = trimSlashes path := by
  rw [normalizePath]
  split
  · rename_i hnil
    rw [hnil]
    decide
  · exact rdropWhile_idempotent _ _

end Lock
end OpenViking
