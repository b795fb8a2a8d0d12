import OpenViking.Common.Assoc
import OpenViking.Common.Path

/-!
# Resume checkpoints

A checkpoint is a directory with the files of the workspace and a manifest.
It replaces the last one by renaming whole directories.
-/

namespace OpenViking
namespace Compile

open Paths List

/-- `CompilePhaseGate`. -/
structure PhaseGate where
  coveragePassed : Bool
  candidatesPassed : Bool
deriving DecidableEq

namespace PhaseGate

def closed : PhaseGate :=
  ⟨false, false⟩

/-- Every gate that is open in `g` is open in `g'`. -/
def Within (g g' : PhaseGate) : Prop :=
  (g.coveragePassed = true -> g'.coveragePassed = true) ∧
    (g.candidatesPassed = true -> g'.candidatesPassed = true)

instance (g g' : PhaseGate) : Decidable (g.Within g') :=
  inferInstanceAs (Decidable (_ ∧ _))

variable {g g' g'' : PhaseGate}

theorem Within.refl (g : PhaseGate) : g.Within g :=
  ⟨id, id⟩

theorem Within.trans (h : g.Within g') (h' : g'.Within g'') : g.Within g'' :=
  ⟨fun hg => h'.1 (h.1 hg), fun hg => h'.2 (h.2 hg)⟩

theorem closed_within (g : PhaseGate) : closed.Within g := by
  constructor
  · nofun
  · nofun

end PhaseGate

/-- The phases that a checkpoint can have completed. -/
inductive Phase where
  | sourceCoverage
  | candidateKnowledge
deriving DecidableEq

/-- The gate that `_build_compile_registry` makes for a resumed task. -/
def PhaseGate.resumed (completed : Option Phase) : PhaseGate where
  coveragePassed := completed = some .sourceCoverage ||
    completed = some .candidateKnowledge
  candidatesPassed := completed = some .candidateKnowledge

/-!
# The workspace
-/

def dotDot : Name := Name.ofString ".."

/-- The path of a file under the workspace root. -/
abbrev EntryPath : Type :=
  { p : Path // dotDot ∉ p }

abbrev Payload : Type :=
  List UInt8

abbrev Workspace : Type :=
  Assoc EntryPath Payload

/-- `COMPILE_TARGET_CHECKOUT_ROOT`. -/
def checkoutRoot : Path :=
  [Name.ofString "__compile_staging__", Name.ofString "target_checkout"]

/-- `READLIST_PATH`. -/
def readlistPath : EntryPath :=
  ⟨[Name.ofString "__compile_staging__", Name.ofString "tmp",
    Name.ofString "readlist.md"], by decide⟩

def inCheckout (p : EntryPath) : Bool :=
  Below checkoutRoot p.1

/-- The files that a checkpoint may hold. -/
def kept (p : EntryPath) : Bool :=
  inCheckout p || p == readlistPath

/-!
# Saving and loading
-/

structure Checkpoint where
  completedStage : Option Phase
  sourceUnitsSignature : Str
  files : List (EntryPath × Payload)
  distinct : (files.map Prod.fst).Nodup
deriving DecidableEq

def checkoutFiles (w : Workspace) : List (EntryPath × Payload) :=
  (w.bindings.filter fun f => inCheckout f.1).insertionSort fun a b =>
    render a.1.1 ≤ render b.1.1

/-- A readlist that cannot be read is left out. -/
def readlistFiles (targetTotalBytes : Nat) (w : Workspace) :
    List (EntryPath × Payload) :=
  match w.find readlistPath with
  | none => []
  | some payload =>
    if targetTotalBytes < payload.length then []
    else [(readlistPath, payload)]

/-- The files to save, or `none` when they exceed the limit. -/
def collectFiles (targetTotalBytes : Nat) (w : Workspace) :
    Option (List (EntryPath × Payload)) :=
  let files := checkoutFiles w ++ readlistFiles targetTotalBytes w
  if targetTotalBytes < (files.map fun f => f.2.length).sum then none
  else some files

/-- The directories beside `destination` in `write_checkpoint`. -/
structure CheckpointDirs where
  destination : Option Checkpoint
  backup : Option Checkpoint
  temporary : Option Checkpoint
deriving DecidableEq

def CheckpointDirs.empty : CheckpointDirs :=
  ⟨none, none, none⟩

inductive Loaded where
  /-- Without a manifest there is nothing to restore. -/
  | nothing
  | conflict
  | restored (workspace : Workspace) (completed : Option Phase)

/-- `_load_resume_checkpoint`. -/
def CheckpointDirs.load (dirs : CheckpointDirs) (sourceUnitsSignature : Str)
    (w : Workspace) : Loaded :=
  match dirs.destination with
  | none => .nothing
  | some c =>
    if c.sourceUnitsSignature ≠ sourceUnitsSignature then .conflict
    else if c.files.all fun f => kept f.1 then
      .restored (w.putAll c.files) c.completedStage
    else .conflict

theorem CheckpointDirs.load_cases (dirs : CheckpointDirs)
    (sourceUnitsSignature : Str) (w : Workspace) :
    dirs.load sourceUnitsSignature w = .nothing ∨
      dirs.load sourceUnitsSignature w = .conflict ∨
      exists c, dirs.destination = some c ∧
        dirs.load sourceUnitsSignature w =
          .restored (w.putAll c.files) c.completedStage := by
  rw [load]
  cases dirs.destination with
  | none => exact .inl rfl
  | some c =>
    right
    by_cases hsignature : c.sourceUnitsSignature ≠ sourceUnitsSignature
    · exact .inl (if_pos hsignature)
    · by_cases hkept : (c.files.all fun f => kept f.1) = true
      · exact .inr ⟨c, rfl, (if_neg hsignature).trans (if_pos hkept)⟩
      · exact .inl ((if_neg hsignature).trans (if_neg hkept))

/-!
# Replacing a checkpoint
-/

/-- What `_save_resume_checkpoint` does next. -/
inductive SaveStep where
  | writeTemporary
  | clearBackup
  /-- `os.replace(destination, backup)`. -/
  | retire
  /-- `os.replace(temporary, destination)`. -/
  | install
  | discardBackup
  | markTask
deriving DecidableEq

namespace SaveStep

def next : SaveStep -> Option SaveStep
  | .writeTemporary => some .clearBackup
  | .clearBackup => some .retire
  | .retire => some .install
  | .install => some .discardBackup
  | .discardBackup => some .markTask
  | .markTask => none

def perform (c : Checkpoint) (dirs : CheckpointDirs) :
    SaveStep -> CheckpointDirs
  | .writeTemporary => { dirs with temporary := some c }
  | .clearBackup => { dirs with backup := none }
  | .retire =>
    if dirs.destination.isSome then
      { dirs with destination := none, backup := dirs.destination }
    else dirs
  | .install =>
    { dirs with destination := dirs.temporary, temporary := none }
  | .discardBackup => { dirs with backup := none }
  | .markTask => dirs

end SaveStep

/-!
# What a save leaves behind
-/

def Saving (c : Checkpoint) (previous : Option Checkpoint)
    (dirs : CheckpointDirs) : SaveStep -> Prop
  | .writeTemporary => dirs.destination = previous
  | .clearBackup => dirs.destination = previous ∧ dirs.temporary = some c
  | .retire => dirs.destination = previous ∧ dirs.temporary = some c
  | .install => dirs.destination = none ∧ dirs.temporary = some c
  | .discardBackup => dirs.destination = some c
  | .markTask => dirs.destination = some c

variable {c : Checkpoint} {previous : Option Checkpoint}
  {dirs : CheckpointDirs} {s s' : SaveStep}

theorem Saving.perform (h : Saving c previous dirs s) (hnext : s.next = some s')
    : Saving c previous (s.perform c dirs) s' := by
  cases s with
  | writeTemporary =>
    cases hnext
    exact ⟨h, rfl⟩
  | clearBackup =>
    cases hnext
    exact h
  | retire =>
    cases hnext
    rw [SaveStep.perform]
    split
    case isTrue => exact ⟨rfl, h.2⟩
    case isFalse hnone =>
      exact ⟨Option.not_isSome_iff_eq_none.mp hnone, h.2⟩
  | install =>
    cases hnext
    exact h.2
  | discardBackup =>
    cases hnext
    exact h
  | markTask => cases hnext

theorem Saving.done (h : Saving c previous dirs s) (hlast : s.next = none) :
    (s.perform c dirs).destination = some c := by
  cases s with
  | markTask => exact h
  | _ => cases hlast

theorem Saving.destination (h : Saving c previous dirs s) :
    dirs.destination = some c ∨ dirs.destination = previous ∨
      (s = .install ∧ dirs.destination = none) := by
  cases s with
  | writeTemporary => exact .inr (.inl h)
  | clearBackup => exact .inr (.inl h.1)
  | retire => exact .inr (.inl h.1)
  | install => exact .inr (.inr ⟨rfl, h.1⟩)
  | discardBackup => exact .inl h
  | markTask => exact .inl h

/-!
# What a checkpoint holds
-/

variable {w : Workspace}

variable {p : EntryPath} {payload : Payload}

theorem mem_checkoutFiles : (p, payload) ∈ checkoutFiles w <->
      inCheckout p = true ∧ w.find p = some payload := by
  rw [checkoutFiles, (perm_insertionSort _ _).mem_iff, mem_filter,
    Assoc.mem_bindings]
  exact and_comm

theorem not_inCheckout_readlist : inCheckout readlistPath = false := by
  decide

variable {limit : Nat}

theorem mem_readlistFiles : (p, payload) ∈ readlistFiles limit w <->
      p = readlistPath ∧ w.find p = some payload ∧ payload.length ≤ limit := by
  rw [readlistFiles]
  cases hfind : w.find readlistPath with
  | none =>
    constructor
    · nofun
    · intro h
      rw [h.1, hfind] at h
      cases h.2.1
  | some payload' =>
    show (p, payload) ∈ (if limit < payload'.length then []
      else [(readlistPath, payload')]) <-> _
    split
    case isTrue hlong =>
      constructor
      · nofun
      · intro h
        rw [h.1, hfind] at h
        cases h.2.1
        exact absurd h.2.2 (Nat.not_le.mpr hlong)
    case isFalse hshort =>
      rw [mem_singleton]
      constructor
      · intro heq
        cases heq
        exact ⟨rfl, hfind, Nat.not_lt.mp hshort⟩
      · intro h
        rcases h with ⟨heq, hsome, _⟩
        rw [heq, hfind] at hsome
        cases hsome
        rw [heq]

variable {files : List (EntryPath × Payload)}

section

variable (h : collectFiles limit w = some files)

include h

theorem collectFiles_eq : files = checkoutFiles w ++ readlistFiles limit w := by
  rw [collectFiles] at h
  split at h
  case isTrue => cases h
  case isFalse =>
    cases h
    rfl

theorem mem_collectFiles : (p, payload) ∈ files <->
      w.find p = some payload ∧
        (inCheckout p = true ∨ p = readlistPath ∧ payload.length ≤ limit) := by
  rw [collectFiles_eq h, mem_append, mem_checkoutFiles, mem_readlistFiles]
  constructor
  · intro hmem
    rcases hmem with ⟨hin, hfind⟩ | ⟨heq, hfind, hshort⟩
    · exact ⟨hfind, .inl hin⟩
    · exact ⟨hfind, .inr ⟨heq, hshort⟩⟩
  · intro hmem
    rcases hmem with ⟨hfind, hin | ⟨heq, hshort⟩⟩
    · exact .inl ⟨hin, hfind⟩
    · exact .inr ⟨heq, hfind, hshort⟩

theorem nodup_collectFiles : (files.map Prod.fst).Nodup := by
  rw [collectFiles_eq h, map_append]
  apply List.Nodup.append
  · rw [checkoutFiles]
    apply ((perm_insertionSort _ _).map Prod.fst).nodup_iff.mpr
    exact (Assoc.nodup_bindings_keys w).sublist (filter_sublist.map _)
  · rw [readlistFiles]
    split
    · exact nodup_nil
    · split
      case isTrue => exact nodup_nil
      case isFalse => exact nodup_singleton _
  · intro p hin hread
    rcases mem_map.mp hin with ⟨⟨_, payload⟩, hf, rfl⟩
    rcases mem_map.mp hread with ⟨⟨_, payload'⟩, hf', hpath⟩
    cases hpath
    have hinside := (mem_checkoutFiles.mp hf).1
    rw [(mem_readlistFiles.mp hf').1, not_inCheckout_readlist] at hinside
    cases hinside

end

end Compile
end OpenViking
