import OpenViking.Common.Assoc
import OpenViking.Common.Attempt
import OpenViking.Common.Path

/-!
# The metadata of a multi-write file system

`MetaStateStore` keeps a redirect file and a sync log in every directory of the
primary backend, and a global file with the next sequence number.  The model
holds what the files say; each read and each write of one of them is answered
by the backend, or fails without effect.
-/

namespace OpenViking
namespace MultiWrite

open Paths Attempt

/-!
# Sync log entries
-/

inductive SyncOp where
  | create
  | syncFile (size : Nat)
  | mkdir (mode : Nat)
  | chmod (mode : Nat)
  | remove
  | removeAll
  | rename (target : Str)
deriving DecidableEq

structure BackendSyncState where
  ackedSeq : Nat
  retryFailures : Nat
  quarantined : Bool
deriving DecidableEq

/-- Equality of finite maps that can be run. -/
instance : DecidableEq (Assoc Str BackendSyncState) := fun a b =>
  decidable_of_iff (a.entries = b.entries) AList.ext_iff.symm

structure SyncLogEntry where
  latestSeq : Nat
  primaryCommitted : Bool
  op : SyncOp
  backends : Assoc Str BackendSyncState
deriving DecidableEq

namespace SyncLogEntry

def new (latestSeq : Nat) (op : SyncOp) : SyncLogEntry where
  latestSeq := latestSeq
  primaryCommitted := false
  op := op
  backends := ∅

def markPrimaryCommitted (entry : SyncLogEntry) : SyncLogEntry :=
  { entry with primaryCommitted := true }

/-- Zero for a backend that is not known. -/
def ackedSeq (entry : SyncLogEntry) (backendName : Str) : Nat :=
  ((entry.backends.find backendName).map BackendSyncState.ackedSeq).getD 0

def isQuarantined (entry : SyncLogEntry) (backendName : Str) : Bool :=
  ((entry.backends.find backendName).map BackendSyncState.quarantined).getD
    false

def isInSync (entry : SyncLogEntry) (backendName : Str) : Bool :=
  decide (entry.ackedSeq backendName ≥ entry.latestSeq)

end SyncLogEntry

instance : DecidableEq (Assoc Str (List Str)) := fun a b =>
  decidable_of_iff (a.entries = b.entries) AList.ext_iff.symm

structure RedirectMeta where
  version : Nat
  entries : Assoc Str (List Str)
deriving DecidableEq

abbrev SyncLogMeta := Assoc Str SyncLogEntry

/-- Both metadata files of a directory. -/
structure DirMeta where
  redirect : RedirectMeta
  syncLog : SyncLogMeta

/-- What is read when neither file is there. -/
def DirMeta.default : DirMeta where
  redirect := { version := 1, entries := ∅ }
  syncLog := ∅

/-- Equality of two hash maps. -/
def sameLog (a b : SyncLogMeta) : Bool :=
  ((a.bindings ++ b.bindings).map Prod.fst).all fun name =>
    a.find name == b.find name

/-!
# Calls
-/

inductive Error where
  | backend (message : Str)
  | internal (message : Str)
deriving DecidableEq

/-- `answers` are the failures of the metadata accesses still to come, none for
one that succeeds; `files` is all other content of the backends. -/
structure World (σ : Type) where
  dirs : Assoc Str DirMeta
  nextSeq : Nat
  pendingDirs : List Str
  files : σ
  answers : List (Option Str)

abbrev Call (σ α : Type) : Type :=
  Attempt Error (World σ) α

section Accesses

variable {σ : Type}

/-- One access to the primary backend. -/
def backendCall : Call σ Unit := fun w =>
  match w.answers with
  | [] => (.ok (), w)
  | none :: rest => (.ok (), { w with answers := rest })
  | some message :: rest =>
    (.error (Error.backend message), { w with answers := rest })

def World.dirMeta (w : World σ) (dir : Str) : DirMeta :=
  (w.dirs.find dir).getD DirMeta.default

variable (dir : Str)

def readRedirectMeta : Call σ RedirectMeta := do
  backendCall
  fun w => (.ok (w.dirMeta dir).redirect, w)

def readSyncLogMeta : Call σ SyncLogMeta := do
  backendCall
  fun w => (.ok (w.dirMeta dir).syncLog, w)

def readDirMetaPair : Call σ DirMeta := do
  let redirect ← readRedirectMeta dir
  let syncLog ← readSyncLogMeta dir
  return { redirect := redirect, syncLog := syncLog }

def writeRedirectMeta (redirect : RedirectMeta) :
    Call σ Unit := do
  backendCall
  modify fun w =>
    { w with
      dirs := w.dirs.put dir { w.dirMeta dir with redirect := redirect } }

def writeSyncLogMeta (syncLog : SyncLogMeta) : Call σ Unit := do
  backendCall
  modify fun w =>
    { w with
      dirs := w.dirs.put dir { w.dirMeta dir with syncLog := syncLog } }

/-- Read, change and write back what has changed. -/
def updateDirMeta (op : DirMeta -> Except Error DirMeta) :
    Call σ Unit := do
  let original ← readDirMetaPair dir
  match op original with
  | .error e => fail e
  | .ok changed => do
      if changed.redirect ≠ original.redirect then
        writeRedirectMeta dir changed.redirect
      if sameLog changed.syncLog original.syncLog = false then
        writeSyncLogMeta dir changed.syncLog

/-- `saturating_add` on `u64`. -/
def nextSeq : Call σ Nat := do
  backendCall
  let seq ← (fun w => (.ok w.nextSeq, w) : Call σ Nat)
  backendCall
  backendCall
  modify fun w => { w with nextSeq := min (seq + 1) (2 ^ 64 - 1) }
  return seq

end Accesses

/-!
# The write pipeline

`execute_write` records the operation in the sync log, tries it on the primary
backend, marks the record as committed and hands the operation to the backups.
When the primary fails it takes the record back.
-/

variable {σ α : Type}

/-- The directory part of a path, the root when there is none. -/
def parentDir (path : Str) : Str :=
  let dir := (path.reverse.dropWhile fun c => c != '/').tail.reverse
  if dir = [] then ['/'] else dir

/-- The part of a path after its last slash. -/
def fileName (path : Str) : Str :=
  (path.reverse.takeWhile fun c => c != '/').reverse

/-- `update_dir_meta` with the two messages of a record that is gone. -/
def preparedMissing (name : Str) : Error :=
  Error.internal ("prepared sync log entry missing while committing '".toList ++
    name ++ "'".toList)

def preparedMismatch (name : Str) : Error :=
  Error.internal
    ("prepared sync log entry seq mismatch while committing '".toList ++
      name ++ "'".toList)

/-- The directory, the name and the sequence number of a record. -/
structure Prepared where
  dir : Str
  name : Str
  seq : Nat
deriving DecidableEq

def prepareEntry (path : Str) (op : SyncOp) : Call σ Prepared := do
  let dir := parentDir path
  let name := fileName path
  let seq ← nextSeq
  updateDirMeta dir fun dirMeta => .ok
    { dirMeta with
      syncLog := dirMeta.syncLog.put name (SyncLogEntry.new seq op) }
  return { dir := dir, name := name, seq := seq }

def prepare (path : Str) : Option SyncOp -> Call σ (Option Prepared)
  | some op => do return some (← prepareEntry path op)
  | none => return none

/-- The record is still the one that was prepared. -/
def shouldRemove (prepared : Prepared) (syncLog : SyncLogMeta) : Bool :=
  (syncLog.find prepared.name).any fun entry =>
    entry.latestSeq == prepared.seq && !entry.primaryCommitted

def takeBack (prepared : Prepared) : Call σ Unit :=
  updateDirMeta prepared.dir fun dirMeta => .ok
    (if shouldRemove prepared dirMeta.syncLog then
      { dirMeta with syncLog := Assoc.del dirMeta.syncLog prepared.name }
    else dirMeta)

def commit (prepared : Prepared) : Call σ Unit :=
  updateDirMeta prepared.dir fun dirMeta =>
    match dirMeta.syncLog.find prepared.name with
    | none => .error (preparedMissing prepared.name)
    | some entry =>
      if entry.latestSeq ≠ prepared.seq then
        .error (preparedMismatch prepared.name)
      else
        .ok
          { dirMeta with
            syncLog := dirMeta.syncLog.put prepared.name
              entry.markPrimaryCommitted }

/-!
# Pending directories
-/

/-- The write-enabled backups, and which paths of which size each excludes. -/
structure Config where
  writeBackups : List Str
  isExcluded : Str -> Str -> Nat -> Bool

def markPendingDir (dir : Str) : Call σ Unit :=
  modify fun w =>
    { w with pendingDirs := if dir ∈ w.pendingDirs then w.pendingDirs
        else dir :: w.pendingDirs }

def clearPendingDir (dir : Str) : Call σ Unit :=
  modify fun w =>
    { w with pendingDirs := w.pendingDirs.filter fun d => d != dir }

def retryPolicySize (entry : SyncLogEntry) : Nat :=
  match entry.op with
  | SyncOp.syncFile size => size
  | _ => 0

def targetBackendNames (config : Config) (redirect : RedirectMeta)
    (name filePath : Str) (entry : SyncLogEntry) : List Str :=
  match redirect.entries.find name with
  | some targets => targets
  | none => config.writeBackups.filter fun backup =>
    !config.isExcluded backup filePath (retryPolicySize entry)

def filePath (dir name : Str) : Str :=
  if dir = ['/'] then '/' :: name else dir ++ '/' :: name

/-- The entries of a directory with the backups they are for. -/
def syncWorkInDir (config : Config) (dir : Str) :
    Call σ (List (SyncLogEntry × List Str)) := do
  let syncLog := (← readDirMetaPair dir).syncLog
  if syncLog.bindings = [] then
    return []
  let redirect := (← readDirMetaPair dir).redirect
  return syncLog.bindings.map fun b =>
    (b.2, targetBackendNames config redirect b.1 (filePath dir b.1) b.2)

/-- A backup still has to be given the committed operation. -/
def hasPendingWork (work : SyncLogEntry × List Str) : Bool :=
  work.1.primaryCommitted && work.2.any fun target =>
    !work.1.isInSync target && !work.1.isQuarantined target

def refreshPendingDir (config : Config) (dir : Str) : Call σ Unit := do
  let work ← syncWorkInDir config dir
  if work.any hasPendingWork then markPendingDir dir
  else clearPendingDir dir

/-!
# The pipeline
-/

def commitPrepared : Option Prepared -> Call σ Unit
  | some prepared => do
      commit prepared
      markPendingDir prepared.dir
  | none => return ()

/-- The error of the clean-up is dropped. -/
def takeBackPrepared (prepared : Option Prepared) (w : World σ) : World σ :=
  match prepared with
  | some prepared => (takeBack prepared w).2
  | none => w

/-- `primaryFn` is the operation on the primary backend, `fanoutWrite` hands it
to the backups. -/
def executeWrite (config : Config) (path : Str) (syncOp : Option SyncOp)
    (primaryFn : Call σ α) (fanoutWrite : Call σ Unit) : Call σ α := do
  let prepared ← prepare path syncOp
  fun w =>
    match primaryFn w with
    | (.error err, w) =>
      (.error err, takeBackPrepared prepared w)
    | (.ok result, w) =>
      (do
        commitPrepared prepared
        let fanoutResult ← Attempt.result fanoutWrite
        refreshPendingDir config (parentDir path)
        match fanoutResult with
        | .error e => Attempt.fail e
        | .ok () => return result : Call σ α) w

end MultiWrite
end OpenViking
