import Mathlib.Data.Rat.Defs
import Mathlib.Tactic.Linarith
import OpenViking.Common.Text

/-!
# The two sidecars of a directory

The overview and the abstract of a directory carry in their frontmatter how many
child changes are not yet in them.  A sidecar is kept as its parsed document, and
a body as the visible Markdown without its terminal newline.
-/

namespace OpenViking
namespace Semantic

/-- Direct-child counters, as the frontmatter is checked when it is read and
written. -/
structure Freshness where
  totalEntries : Nat
  sampledEntries : Nat
  unsampledEntries : Nat
  pendingChildChanges : Nat
  covers : sampledEntries + unsampledEntries = totalEntries
deriving DecidableEq

/-- The counters of a directory, unless more entries were sampled than it has. -/
def freshnessMetadata (totalEntries sampledEntries pending : Nat) :
    Option Freshness :=
  if h : sampledEntries ≤ totalEntries then
    some
      { totalEntries := totalEntries
        sampledEntries := sampledEntries
        unsampledEntries := totalEntries - sampledEntries
        pendingChildChanges := pending
        covers := Nat.add_sub_cancel' h }
  else none

structure Source where
  kind : String
  uri : String
deriving DecidableEq

structure GeneratedBy where
  component : String
  trigger : String
deriving DecidableEq

structure Metadata where
  source : Option Source
  generatedBy : Option GeneratedBy
  freshness : Option Freshness
deriving DecidableEq

/-- A sidecar without frontmatter is a legacy one and has no metadata. -/
inductive Document where
  | legacy (body : String)
  | okf (metadata : Metadata) (body : String)
deriving DecidableEq

namespace Document

def body : Document -> String
  | legacy body => body
  | okf _ body => body

def metadata : Document -> Metadata
  | legacy _ => { source := none, generatedBy := none, freshness := none }
  | okf metadata _ => metadata

end Document

structure Directory where
  overview : Option Document
  abstract : Option Document
deriving DecidableEq

/-- The counters of a sidecar that has them. -/
def freshnessOf (sidecar : Option Document) : Option Freshness :=
  match sidecar with
  | none => none
  | some document => document.metadata.freshness

def pendingOf (sidecar : Option Document) : Nat :=
  match freshnessOf sidecar with
  | none => 0
  | some freshness => freshness.pendingChildChanges

/-- `read_abstract_overview_pending_snapshot`: the larger of the counters. -/
def Directory.readPendingSnapshot (directory : Directory) : Nat :=
  max (pendingOf directory.overview) (pendingOf directory.abstract)

/-!
# Writing the sidecars
-/

/-- Whether the write of each sidecar reaches the store. -/
structure Lands where
  overview : Bool
  abstract : Bool
deriving DecidableEq

/-- A sidecar that already reads so is not written.  The flag is false when the
write raises. -/
def writeSidecar (lands : Bool) (rendered : Document) (current : Option Document) :
    Option Document × Bool :=
  if current = some rendered then (current, true)
  else if lands then (some rendered, true)
  else (current, false)

/-- The overview is written first; when that raises, the abstract is left. -/
def Directory.writeSidecars (lands : Lands) (overview abstract : Document)
    (directory : Directory) : Directory × Bool :=
  match writeSidecar lands.overview overview directory.overview with
  | (written, false) => ({ directory with overview := written }, false)
  | (written, true) =>
    match writeSidecar lands.abstract abstract directory.abstract with
    | (writtenAbstract, completed) =>
      ({ overview := written, abstract := writtenAbstract }, completed)

theorem writeSidecar_cases (lands : Bool) (rendered : Document)
    (current : Option Document) :
    writeSidecar lands rendered current = (some rendered, true) ∨
      writeSidecar lands rendered current = (current, false) := by
  unfold writeSidecar
  by_cases heq : current = some rendered
  · rw [if_pos heq, heq]
    exact .inl rfl
  · rw [if_neg heq]
    cases lands with
    | false => exact .inr rfl
    | true => exact .inl rfl

theorem writeSidecars_cases (lands : Lands) (overview abstract : Document)
    (directory : Directory) :
    directory.writeSidecars lands overview abstract =
        ({ overview := some overview, abstract := some abstract }, true) ∨
      exists written, (written = directory.overview ∨ written = some overview) ∧
        directory.writeSidecars lands overview abstract =
          ({ directory with overview := written }, false) := by
  unfold Directory.writeSidecars
  rcases writeSidecar_cases lands.overview overview directory.overview with
    hover | hover
  · rw [hover]
    rcases writeSidecar_cases lands.abstract abstract directory.abstract with
      habs | habs
    · rw [habs]
      exact .inl rfl
    · rw [habs]
      exact .inr ⟨some overview, .inr rfl, rfl⟩
  · rw [hover]
    exact .inr ⟨directory.overview, .inl rfl, rfl⟩

/-!
# The refresh policy
-/

inductive FreshnessAction where
  | noop
  | markPending
  | refreshNow
deriving DecidableEq

structure FreshnessDecision where
  action : FreshnessAction
  pendingAfter : Int
  totalEntries : Nat
deriving DecidableEq

structure PlanRequest where
  changedEntries : Int
  l0BodyChanged : Bool
  forceRefresh : Bool
  overviewSampleLimit : Int
  refreshRatio : Rat
deriving DecidableEq

def decideParentRefresh (l0BodyChanged hasFreshnessBaseline : Bool)
    (totalEntries pendingBefore : Nat) (request : PlanRequest) : FreshnessDecision :=
  if l0BodyChanged = false ∨ request.changedEntries ≤ 0 then
    { action := .noop
      pendingAfter := pendingBefore
      totalEntries := totalEntries }
  else
    let pendingAfter := pendingBefore + request.changedEntries
    let action :=
      if hasFreshnessBaseline = false then .refreshNow
      else if request.forceRefresh = true ∨
          (totalEntries : Int) ≤ request.overviewSampleLimit then
        .refreshNow
      else if request.refreshRatio ≤ (pendingAfter : Rat) / max totalEntries 1 then
        .refreshNow
      else .markPending
    { action := action, pendingAfter := pendingAfter, totalEntries := totalEntries }

/-- The counters of both sidecars, when both have them. -/
def Directory.baselines (directory : Directory) : Option (Freshness × Freshness) :=
  match freshnessOf directory.overview, freshnessOf directory.abstract with
  | some overview, some abstract => some (overview, abstract)
  | _, _ => none

/-- The same sidecar with another counter. -/
def Document.withPending (pending : Nat) (document : Document) : Document :=
  match document with
  | legacy body => legacy body
  | okf metadata body =>
    okf
      { metadata with
        freshness := metadata.freshness.map fun freshness =>
          { freshness with pendingChildChanges := pending } }
      body

variable (request : PlanRequest)

/-- Nothing is counted before both sidecars have a baseline: the refresh that is
asked for at once makes one. -/
def planWithoutBaseline : FreshnessDecision :=
  decideParentRefresh true false 0 0 request

/-- The part of `plan_abstract_overview_refresh` under its lease.  No decision is
returned when a write raises. -/
def planUnderLease (lands : Lands) (directory : Directory) :
    Directory × Option FreshnessDecision :=
  match directory.overview, directory.abstract, directory.baselines with
  | some overview, some abstract, some (inOverview, inAbstract) =>
    let decision :=
      decideParentRefresh true true inOverview.totalEntries
        (max inOverview.pendingChildChanges inAbstract.pendingChildChanges)
        request
    let pending := decision.pendingAfter.toNat
    match directory.writeSidecars lands (overview.withPending pending)
        (abstract.withPending pending) with
    | (after, true) => (after, some decision)
    | (after, false) => (after, none)
  | _, _, _ => (directory, some (planWithoutBaseline request))

/-- `preliminary` is what the sidecars read before the lease was taken. -/
def planAbstractOverviewRefresh (preliminary : Directory)
    (lands : Lands) (directory : Directory) :
    Directory × Option FreshnessDecision :=
  if request.changedEntries ≤ 0 ∨ request.l0BodyChanged = false then
    (directory,
      some
        { action := .noop, pendingAfter := 0, totalEntries := 0 })
  else if preliminary.baselines = none then
    (directory, some (planWithoutBaseline request))
  else planUnderLease request lands directory

/-- How many child changes a call records: those of a call that meets both
baselines under its lease and returns. -/
def recordedBy (preliminary : Directory) (lands : Lands)
    (directory : Directory) : Nat :=
  if request.changedEntries ≤ 0 ∨ request.l0BodyChanged = false then 0
  else if preliminary.baselines = none ∨ directory.baselines = none then 0
  else if (planUnderLease request lands directory).2 = none then 0
  else request.changedEntries.toNat

/-!
# The write of a refresh
-/

inductive WriteResult where
  | raised
  | skipped
  | wrote (overviewBodyChanged abstractBodyChanged : Bool)
deriving DecidableEq

def WriteResult.completes : WriteResult -> Bool
  | wrote _ _ => true
  | _ => false

/-- What `write_abstract_overview` is asked to write.  The two flags are what
`is_stale` answers before the lease is taken and under it. -/
structure WriteRequest where
  overview : String
  abstract : String
  metadata : Metadata
  consumePending : Option Int
  staleBefore : Bool
  staleUnderLease : Bool
deriving DecidableEq

/-- The source that is kept when the request names none. -/
def existingSource (directory : Directory) : Option Source :=
  match directory.overview.bind fun document => document.metadata.source with
  | some source => some source
  | none => directory.abstract.bind fun document => document.metadata.source

/-- What remains of the counter when a refresh has consumed what it was told to. -/
def remainingPending (consumePending : Option Int) (currentPending : Nat) : Nat :=
  let consumed : Int :=
    match consumePending with
    | none => currentPending
    | some amount => max amount 0
  (max ((currentPending : Int) - consumed) 0).toNat

def WriteRequest.mergedMetadata (request : WriteRequest) (directory : Directory) :
    Metadata :=
  { source :=
      match request.metadata.source with
      | some source => some source
      | none => existingSource directory
    generatedBy := request.metadata.generatedBy
    freshness := request.metadata.freshness.map fun freshness =>
      { freshness with
        pendingChildChanges :=
          remainingPending request.consumePending directory.readPendingSnapshot } }

def unixNewlines : List Char -> List Char
  | [] => []
  | '\r' :: '\n' :: rest => '\n' :: unixNewlines rest
  | '\r' :: rest => '\n' :: unixNewlines rest
  | c :: rest => c :: unixNewlines rest

/-- The visible text that `semantic_body_digest` hashes. -/
def semanticBody (body : String) : Text :=
  Text.strip (unixNewlines body.toList)

def bodyChanged (existing : Option Document) (body : String) : Bool :=
  match existing with
  | none => true
  | some document => semanticBody document.body != semanticBody body

def writeAbstractOverview (request : WriteRequest) (lands : Lands)
    (directory : Directory) : Directory × WriteResult :=
  if request.staleBefore = true ∨ request.staleUnderLease = true then
    (directory, .skipped)
  else
    let metadata := request.mergedMetadata directory
    match directory.writeSidecars lands (.okf metadata request.overview)
        (.okf metadata request.abstract) with
    | (after, true) =>
      (after,
        .wrote (bodyChanged directory.overview request.overview)
          (bodyChanged directory.abstract request.abstract))
    | (after, false) => (after, .raised)

end Semantic
end OpenViking
