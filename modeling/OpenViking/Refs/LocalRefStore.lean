import OpenViking.Common.Path
import OpenViking.Common.Assoc
import OpenViking.Common.Interleaving

/-!
# Ref names and their files

A branch ref is a text file under the account directory.  Its temporary file
has the same path with the extension replaced by `tmp`.
-/

namespace OpenViking
namespace Refs

open Paths List

/-!
# Object ids
-/

def isHexDigit (c : Char) : Bool :=
  ('0' ≤ c && c ≤ '9') || ('a' ≤ c && c ≤ 'f')

/-- A SHA-1 object id, kept as the digits that `to_hex` writes. -/
structure ObjectId where
  hex : Str
  length_hex : hex.length = 40
  digits : forall c, c ∈ hex -> isHexDigit c = true
deriving DecidableEq

instance (digits : Str) :
    Decidable (forall c, c ∈ digits -> isHexDigit c = true) :=
  List.decidableBAll _ digits

/-- Hex digits of either case are accepted. -/
def ObjectId.parse (s : Str) : Option ObjectId :=
  let digits := s.map Char.toLower
  if h : digits.length = 40 ∧ forall c, c ∈ digits -> isHexDigit c = true then
    some ⟨digits, h.1, h.2⟩
  else
    none

/-- `str::trim`, for the blanks of a ref file. -/
def trim (s : Str) : Str :=
  ((s.dropWhile Char.isWhitespace).reverse.dropWhile
    Char.isWhitespace).reverse

/-- The text of a ref file. -/
def refContent (oid : ObjectId) : Str :=
  oid.hex ++ ['\n']

variable {c : Char}

private theorem hexDigit_range (h : isHexDigit c = true) :
    (48 ≤ c.val.toNat ∧ c.val.toNat ≤ 57) ∨
      (97 ≤ c.val.toNat ∧ c.val.toNat ≤ 102) := by
  simpa [isHexDigit, Char.le_def, UInt32.le_iff_toNat_le] using h

theorem toLower_hexDigit (h : isHexDigit c = true) : c.toLower = c := by
  have hrange := hexDigit_range h
  delta Char.toLower
  rw [dif_neg]
  rintro ⟨hlow, hhigh⟩
  have hlow' : 65 ≤ c.val.toNat := by
    simpa [UInt32.le_iff_toNat_le] using hlow
  have hhigh' : c.val.toNat ≤ 90 := by
    simpa [UInt32.le_iff_toNat_le] using hhigh
  omega

theorem isWhitespace_hexDigit (h : isHexDigit c = true) :
    c.isWhitespace = false := by
  have hrange := hexDigit_range h
  cases hws : c.isWhitespace with
  | false => rfl
  | true =>
    have hchars : c = ' ' ∨ c = '\t' ∨ c = '\r' ∨ c = '\n' := by
      simpa [Char.isWhitespace, or_assoc] using hws
    rcases hchars with rfl | rfl | rfl | rfl <;> simp at hrange

theorem trim_refContent (oid : ObjectId) : trim (refContent oid) = oid.hex := by
  have hws : forall c, c ∈ oid.hex -> c.isWhitespace = false :=
    fun c hc => isWhitespace_hexDigit (oid.digits c hc)
  have hne : oid.hex ≠ [] := by
    intro hnil
    have hlen := oid.length_hex
    rw [hnil] at hlen
    cases hlen
  unfold trim refContent
  rcases exists_cons_of_ne_nil hne with ⟨first, rest, hcons⟩
  have hfirst : (oid.hex ++ ['\n']).dropWhile Char.isWhitespace =
      oid.hex ++ ['\n'] := by
    rw [hcons, cons_append, dropWhile_cons_of_neg]
    simp [hws first (by simp [hcons])]
  rw [hfirst, reverse_append, reverse_singleton,
    singleton_append, dropWhile_cons_of_pos (by decide)]
  rcases exists_cons_of_ne_nil (reverse_ne_nil_iff.mpr hne) with
    ⟨last, front, hrev⟩
  rw [hrev, dropWhile_cons_of_neg, ← hrev, reverse_reverse]
  have hlast : last ∈ oid.hex := by
    rw [← mem_reverse, hrev]
    exact mem_cons_self
  simp [hws last hlast]

theorem parse_trim_refContent (oid : ObjectId) :
    ObjectId.parse (trim (refContent oid)) = some oid := by
  rw [trim_refContent]
  have hmap : oid.hex.map Char.toLower = oid.hex := by
    rw [map_congr_left fun c hc => toLower_hexDigit (oid.digits c hc)]
    exact map_id' _
  unfold ObjectId.parse
  simp only [hmap]
  rw [dif_pos ⟨oid.length_hex, oid.digits⟩]

/-!
# Errors and names
-/

inductive IoError where
  | notFound
  | notADirectory
  | isADirectory
  | alreadyExists
  | resourceBusy
deriving DecidableEq

inductive RefStoreError where
  | invalidName (message : String)
  | conflict (expected actual : Option ObjectId)
  | io (error : IoError)
  | backend (content : Str)
deriving DecidableEq

def invalidRefChars : Str :=
  [' ', '\x00', '~', '^', ':', '?', '[', '*']

def validateRefName (refName : Str) : Except RefStoreError Unit :=
  if refName = [] then
    .error (.invalidName "ref name cannot be empty")
  else if "..".toList <:+: refName then
    .error (.invalidName "ref name cannot contain '..'")
  else if refName.head? = some '/' ∨ refName.getLast? = some '/' then
    .error
      (.invalidName "ref name cannot start or end with '/'")
  else if refName.any fun c => invalidRefChars.contains c then
    .error
      (.invalidName "ref name contains invalid characters")
  else
    .ok ()

/-!
# Paths
-/

/-- The components of a ref name; `.` and empty ones do not count. -/
def components (refName : Str) : Path :=
  ((refName.splitOn '/').filter fun c => c != ['.']).filterMap Name.ofChars?

/-- The name asks for the entry `.` of its path. -/
def endsInDot (refName : Str) : Bool :=
  (refName.splitOn '/').getLast? == some ['.']

/-- `root` is the account directory under the base directory. -/
def refPath (root : Path) (refName : Str) : Path :=
  root ++ components refName

/-- `Path::file_stem`: the name up to a last dot that is not its first sign. -/
def fileStem (chars : Str) : Str :=
  let stem := (chars.reverse.dropWhile fun c => c != '.').tail.reverse
  if stem = [] then chars else stem

theorem fileStem_ne_nil {chars : Str} (h : chars ≠ []) :
    fileStem chars ≠ [] := by
  unfold fileStem
  simp only
  split
  · exact h
  · assumption

theorem mem_of_mem_fileStem {chars : Str} (h : c ∈ fileStem chars) : c ∈ chars := by
  unfold fileStem at h
  simp only at h
  split at h
  · exact h
  · rw [mem_reverse] at h
    have hdrop := mem_of_mem_tail h
    exact mem_reverse.mp ((dropWhile_suffix _).subset hdrop)

theorem fileStem_append_tmp {stem : Str} (h : stem ≠ []) :
    fileStem (stem ++ ".tmp".toList) = stem := by
  have htail : ((stem ++ ".tmp".toList).reverse.dropWhile
      fun c => c != '.').tail.reverse = stem := by
    rw [reverse_append]
    change ((['p', 'm', 't', '.'] ++ stem.reverse).dropWhile
      fun c => c != '.').tail.reverse = stem
    simp
  unfold fileStem
  simp only [htail]
  rw [if_neg h]

def tmpName (n : Name) : Name where
  chars := fileStem n.chars ++ ".tmp".toList
  nonempty := by
    intro h
    exact fileStem_ne_nil n.nonempty (List.append_eq_nil_iff.mp h).1
  noSlash := by
    intro h
    rcases List.mem_append.mp h with h | h
    · exact n.noSlash (mem_of_mem_fileStem h)
    · revert h
      decide

/-- `with_extension("tmp")`. -/
def tmpPath (p : Path) : Path :=
  match p.getLast? with
  | none => []
  | some n => p.dropLast ++ [tmpName n]

theorem tmpName_tmpName (n : Name) : tmpName (tmpName n) = tmpName n := by
  apply Name.ext
  change fileStem (fileStem n.chars ++ _) ++ _ = _
  rw [fileStem_append_tmp (fileStem_ne_nil n.nonempty)]
  rfl

theorem tmpPath_append_singleton (dirs : Path) (n : Name) :
    tmpPath (dirs ++ [n]) = dirs ++ [tmpName n] := by
  simp [tmpPath]

theorem tmpPath_tmpPath (p : Path) : tmpPath (tmpPath p) = tmpPath p := by
  rcases eq_nil_or_concat' p with rfl | ⟨dirs, n, rfl⟩
  · rfl
  · rw [tmpPath_append_singleton, tmpPath_append_singleton, tmpName_tmpName]

theorem parentDirs_tmpPath (p : Path) :
    parentDirs (tmpPath p) = parentDirs p := by
  rcases eq_nil_or_concat' p with rfl | ⟨dirs, n, rfl⟩
  · rfl
  · simp [parentDirs, tmpPath_append_singleton]

/-!
# The local ref store

Any number of `cas_update` calls run in one process.  Every file system call
of a call is one step, and the calls interleave in any order.
-/

/-!
# Files
-/

inductive FileNode where
  | file (content : Str)
  | dir
deriving DecidableEq

/-- The files under `/`, which itself always is a directory. -/
abbrev Files := Assoc Path FileNode

namespace Files

/-- The walk through the directories above a path. -/
def checkDirs (files : Files) : List Path -> Except IoError Unit
  | [] => .ok ()
  | d :: rest =>
    match files.find d with
    | some .dir => checkDirs files rest
    | some (.file _) => .error .notADirectory
    | none => .error .notFound

/-- `dot` asks for the entry `.` under the path. -/
def readToString (files : Files) (p : Path) (dot : Bool) :
    Except IoError Str := do
  files.checkDirs (parentDirs p)
  match files.find p with
  | none => .error .notFound
  | some .dir => .error .isADirectory
  | some (.file content) =>
    if dot then .error .notADirectory else .ok content

/-- Create the missing ones of the given directories, outermost first. -/
def createDirs (files : Files) : List Path -> Except IoError Files
  | [] => .ok files
  | d :: rest =>
    match files.find d with
    | some .dir => createDirs files rest
    | some (.file _) =>
      .error (if rest = [] then .alreadyExists
        else .notADirectory)
    | none => createDirs (files.put d .dir) rest

def write (files : Files) (p : Path) (content : Str) :
    Except IoError Files := do
  files.checkDirs (parentDirs p)
  match files.find p with
  | some .dir => .error .isADirectory
  | _ => .ok (files.put p (.file content))

/-- Move a file over another; a target that ends in `.` cannot be replaced. -/
def rename (files : Files) (source target : Path) (dot : Bool) :
    Except IoError Files := do
  files.checkDirs (parentDirs source)
  files.checkDirs (parentDirs target)
  match files.find source with
  | none => .error .notFound
  | some node =>
    if dot then
      match files.find target with
      | none => .error .notFound
      | some (.file _) => .error .notADirectory
      | some .dir => .error .resourceBusy
    else if source = target then
      .ok files
    else
      match files.find target with
      | some .dir => .error .isADirectory
      | _ => .ok ((files.del source).put target node)

end Files

/-!
# One call
-/

def readRefOpt (files : Files) (p : Path) (dot : Bool) :
    Except RefStoreError (Option ObjectId) :=
  match files.readToString p dot with
  | .ok content =>
    match ObjectId.parse (trim content) with
    | some oid => .ok (some oid)
    | none => .error (.backend (trim content))
  | .error .notFound => .ok none
  | .error e => .error (.io e)

structure UpdateCall where
  refName : Str
  expected : Option ObjectId
  new : ObjectId

/-- Where a call is: what it has done last. -/
inductive Stage where
  | start
  | locked
  | read (actual : Option ObjectId)
  | compared
  | dirsMade
  | tmpWritten
  | done (result : Except RefStoreError Unit)

/-- The next step of a call that holds the lock of its ref. -/
def callStep (root : Path) (files : Files) (call : UpdateCall) :
    Stage -> Files × Stage
  | .locked =>
    match readRefOpt files (refPath root call.refName)
        (endsInDot call.refName) with
    | .ok actual => (files, .read actual)
    | .error e => (files, .done (.error e))
  | .read actual =>
    if actual = call.expected then
      (files, .compared)
    else
      (files, .done
        (.error (.conflict call.expected actual)))
  | .compared =>
    match files.createDirs (parentDirs (refPath root call.refName)) with
    | .ok files => (files, .dirsMade)
    | .error e => (files, .done (.error (.io e)))
  | .dirsMade =>
    match files.write (tmpPath (refPath root call.refName))
        (refContent call.new) with
    | .ok files => (files, .tmpWritten)
    | .error e => (files, .done (.error (.io e)))
  | .tmpWritten =>
    match files.rename (tmpPath (refPath root call.refName))
        (refPath root call.refName) (endsInDot call.refName) with
    | .ok files => (files, .done (.ok ()))
    | .error e => (files, .done (.error (.io e)))
  | stage => (files, stage)

/-!
# All calls
-/

structure StoreState where
  files : Files
  locks : List Str
  calls : List (UpdateCall × Stage)

def StoreState.start (files : Files) (calls : List UpdateCall) :
    StoreState where
  files := files
  locks := []
  calls := calls.map fun call => (call, .start)

def Stage.isDone : Stage -> Bool
  | done _ => true
  | _ => false

/-- The next step of the call at position `i`. -/
def storeStep (root : Path) (s : StoreState) (i : Nat) : Option StoreState :=
  match s.calls[i]? with
  | none => none
  | some (call, .start) =>
    match validateRefName call.refName with
    | .error e =>
      some { s with
        calls := s.calls.set i (call, .done (.error e)) }
    | .ok () =>
      if call.refName ∈ s.locks then
        none
      else
        some { s with
          locks := call.refName :: s.locks
          calls := s.calls.set i (call, .locked) }
  | some (_, .done _) => none
  | some (call, stage) =>
    let next := callStep root s.files call stage
    some {
      files := next.1
      locks := if next.2.isDone then s.locks.erase call.refName
        else s.locks
      calls := s.calls.set i (call, next.2) }

end Refs
end OpenViking
