import OpenViking.Common.Attempt
import OpenViking.Common.Segments
import OpenViking.Common.Text
import OpenViking.Semantic.AbstractOverview

/-!
# The text of a sidecar

A generated overview or abstract is Markdown under frontmatter.  The YAML library is a
parameter.
-/

namespace OpenViking
namespace Overview

open Text
open Segments (stripRight)
open Semantic (Freshness)

/-!
# Lines
-/

def isLineBreak (c : Char) : Bool :=
  let n := c.toNat
  (10 ≤ n && n ≤ 13) || (28 ≤ n && n ≤ 30) || n == 0x85 || n == 0x2028 || n == 0x2029

/-- The lines of a text with their ends.  A carriage return and a newline end one line. -/
def splitLines : Text -> List Text
  | [] => []
  | c :: rest =>
    if isLineBreak c && !(c == '\r' && rest.head? == some '\n') then
      [c] :: splitLines rest
    else
      match splitLines rest with
      | [] => [[c]]
      | line :: lines => (c :: line) :: lines

def rstripBreaks (line : Text) : Text :=
  line.rdropWhile fun c => c == '\r' || c == '\n'

def isMarker (line : Text) : Bool :=
  rstripBreaks line == "---".toList

/-!
# Metadata
-/

inductive OverviewError where
  | format (message : Text)
  | metadata (message : Text)
  | value (message : Text)
deriving DecidableEq

/-- What a YAML document holds.  Of other values only the text matters. -/
inductive Value where
  | null
  | int (n : Int)
  | str (text : Text)
  | mapping (entries : List (Text × Value))
  | other (text : Text)

abbrev Mapping := List (Text × Value)

/-- The text of a value.  A mapping's is no URI. -/
def Value.toText : Value -> Text
  | .null => "None".toList
  | .int n => (toString n).toList
  | .str text => text
  | .mapping _ => "\x7b".toList
  | .other text => text

def scheme : Text := "viking://".toList

def normalizeDirectoryUri (dirUri : Text) : Except OverviewError Text :=
  let value := strip dirUri
  if value = [] then
    .error (.format "abstract overview directory must not be empty".toList)
  else if scheme <+: value then .ok (stripRight '/' value ++ ['/'])
  else
    .error (.format "abstract overview directory must be a viking:// URI".toList)

theorem strip_strip (text : Text) : strip (strip text) = strip text := by
  have hfront : lstrip (strip text) = strip text := by
    rw [lstrip, List.dropWhile_eq_self_iff]
    intro hpos hspace
    have hhead := rstrip_front (lstrip text)
    have hlt := Nat.lt_of_lt_of_le hpos hhead.length_le
    apply (List.dropWhile_eq_self_iff.mp (List.dropWhile_idempotent (p := isSpace) text)) hlt
    rw [← hspace]
    exact congrArg isSpace (hhead.getElem hpos).symm
  rw [strip, hfront]
  exact List.rdropWhile_idempotent _ _

/-- A stripped text within its limit. -/
structure Label (limit : Nat) where
  text : Text
  stripped : strip text = text
  ne_nil : text ≠ []
  le : text.length ≤ limit
deriving DecidableEq

def boundedString (value : Value) (field : Text) (limit : Nat) :
    Except OverviewError (Label limit) :=
  let empty := .format
    ("abstract overview ".toList ++ field ++ " must be a non-empty string".toList)
  match value with
  | .str text =>
    if hempty : strip text = [] then .error empty
    else if hlong : limit < (strip text).length then
      .error (.format ("abstract overview ".toList ++ field ++ " exceeds the ".toList ++
        (toString limit).toList ++ "-character policy limit".toList))
    else .ok ⟨strip text, strip_strip text, hempty, Nat.not_lt.mp hlong⟩
  | _ => .error empty

def maxLabelChars : Nat := 128

def maxSourceUriChars : Nat := 4096

structure Metadata where
  directory : Option Text
  source : Option (Label maxLabelChars × Label maxSourceUriChars)
  generatedBy : Option (Label maxLabelChars × Label maxLabelChars)
  freshness : Option Freshness
deriving DecidableEq

variable (metadata : Mapping)

/-- A field of two labels. -/
def normalizeLabels (name first second : Text) (limit : Nat) :
    Except OverviewError (Option (Label maxLabelChars × Label limit)) :=
  let missing := .format ("abstract overview ".toList ++ name ++
    " must contain ".toList ++ first ++ " and ".toList ++ second)
  match metadata.lookup name with
  | none => .ok none
  | some .null => .ok none
  | some (.mapping entries) =>
    match entries.lookup first, entries.lookup second with
    | some a, some b => do
      let x ← boundedString a (name ++ '.' :: first) maxLabelChars
      let y ← boundedString b (name ++ '.' :: second) limit
      return some (x, y)
    | _, _ => .error missing
  | some _ => .error missing

def normalizeSource :=
  normalizeLabels metadata "source".toList "kind".toList "uri".toList maxSourceUriChars

def normalizeGeneratedBy :=
  normalizeLabels metadata "generated_by".toList "component".toList "trigger".toList
    maxLabelChars

def counterFields : List Text :=
  ["total_entries".toList, "sampled_entries".toList, "unsampled_entries".toList,
    "pending_child_changes".toList]

def counter (entries : Mapping) (field : Text) : Except OverviewError Nat :=
  let invalid := .format ("abstract overview freshness.".toList ++ field ++
    " must be a non-negative integer".toList)
  match entries.lookup field with
  | some (.int n) => if 0 ≤ n then .ok n.toNat else .error invalid
  | _ => .error invalid

def normalizeFreshness : Except OverviewError (Option Freshness) :=
  let invalid := .format
    "abstract overview freshness has an invalid field set".toList
  match metadata.lookup "freshness".toList with
  | none => .ok none
  | some .null => .ok none
  | some (.mapping entries) =>
    if counterFields.all fun field => (entries.lookup field).isSome then do
      let total ← counter entries "total_entries".toList
      let sampled ← counter entries "sampled_entries".toList
      let unsampled ← counter entries "unsampled_entries".toList
      let pending ← counter entries "pending_child_changes".toList
      if h : sampled + unsampled = total then
        return some ⟨total, sampled, unsampled, pending, h⟩
      else
        .error (.format
          "abstract overview freshness sampled + unsampled must equal total".toList)
    else .error invalid
  | some _ => .error invalid

/-- The fields besides the directory. -/
def normalizeRest (directory : Option Text) :
    Except OverviewError Metadata := do
  let source ← normalizeSource metadata
  let generatedBy ← normalizeGeneratedBy metadata
  let freshness ← normalizeFreshness metadata
  return { directory, source, generatedBy, freshness }

/-- Fields outside the schema are dropped. -/
def normalizeMetadata : Except OverviewError Metadata :=
  match metadata.lookup "directory".toList with
  | none => normalizeRest metadata none
  | some value => do
    let directory ← normalizeDirectoryUri value.toText
    normalizeRest metadata (some directory)

def labelsValue {first second : Nat} (firstName secondName : Text)
    (labels : Label first × Label second) : Value :=
  .mapping [(firstName, .str labels.1.text), (secondName, .str labels.2.text)]

def freshnessValue (freshness : Freshness) : Value :=
  .mapping
    [("total_entries".toList, .int freshness.totalEntries),
      ("sampled_entries".toList, .int freshness.sampledEntries),
      ("unsampled_entries".toList, .int freshness.unsampledEntries),
      ("pending_child_changes".toList, .int freshness.pendingChildChanges)]

/-- The present fields in their order. -/
def Metadata.toMapping (metadata : Metadata) : Mapping :=
  let entry := fun (name : Text) (value : Option Value) =>
    value.toList.map fun v => (name, v)
  entry "directory".toList (metadata.directory.map .str) ++
    entry "source".toList
      (metadata.source.map (labelsValue "kind".toList "uri".toList)) ++
    entry "generated_by".toList
      (metadata.generatedBy.map (labelsValue "component".toList "trigger".toList)) ++
    entry "freshness".toList (metadata.freshness.map freshnessValue)

/-!
# Parse, render and write
-/

structure Yaml where
  safeDump : Mapping -> Text
  safeLoad : Text -> Except Text Value

structure Document where
  metadata : Metadata
  body : Text
  legacy : Bool
deriving DecidableEq

def noMetadata : Metadata := ⟨none, none, none, none⟩

def frontmatter (loaded : Value) : Except OverviewError Metadata :=
  let missing := .format
    "abstract overview frontmatter must contain directory".toList
  match loaded with
  | .null => .error missing
  | .mapping entries =>
    if (entries.lookup "directory".toList).isSome then normalizeMetadata entries
    else .error missing
  | _ => .error (.format "abstract overview frontmatter must be a YAML object".toList)

def dropBreak : Text -> Text
  | '\r' :: '\n' :: rest => rest
  | '\n' :: rest => rest
  | body => body

def parseAbstractOverview (yaml : Yaml) (text : Text) : Except OverviewError Document :=
  match splitLines text with
  | [] => .ok ⟨noMetadata, text, true⟩
  | first :: lines =>
    if isMarker first then
      match lines.dropWhile fun line => !isMarker line with
      | [] => .error (.format "abstract overview frontmatter is not closed".toList)
      | _ :: after =>
        match yaml.safeLoad (lines.takeWhile fun line => !isMarker line).flatten with
        | .error message =>
          .error (.format ("invalid abstract overview YAML: ".toList ++ message))
        | .ok loaded =>
          (frontmatter loaded).map fun metadata =>
            ⟨metadata, dropBreak after.flatten, false⟩
    else .ok ⟨noMetadata, text, true⟩

def sidecarText (front body : Text) : Text :=
  "---\n".toList ++ (front ++ "\n---\n\n".toList ++ (body ++ ['\n']))

def renderAbstractOverview (yaml : Yaml) (level : Int) (dirUri body : Text)
    (metadata : Mapping) : Except OverviewError Text :=
  if level < 0 ∨ 2 < level then
    .error (.format
      ("invalid abstract overview level: ".toList ++ (toString level).toList))
  else if level = 2 then
    .error (.format "abstract overviews only support L0 and L1".toList)
  else do
    let directory ← normalizeDirectoryUri dirUri
    let merged := ("directory".toList, Value.str directory) :: metadata
    let normalized ← normalizeMetadata merged
    return sidecarText (rstrip (yaml.safeDump normalized.toMapping)) (strip body)

def abstractFilename : Text := ".abstract.md".toList

/-- The name of a URI and what stands before it. -/
def filename (uri : Text) : Text :=
  (stripRight '/' uri).rtakeWhile fun c => c ≠ '/'

def parentUri (uri : Text) : Text :=
  let trimmed := stripRight '/' uri
  if '/' ∈ trimmed then (trimmed.rdropWhile fun c => c ≠ '/').dropLast else trimmed

/-- The directory that a write is rendered for. -/
def Document.directoryOr (current : Document) (uri : Text) : Text :=
  match current.metadata.directory with
  | some (c :: rest) => c :: rest
  | _ => parentUri uri

def writtenBody (mode : Text) (current requested : Document) : Text :=
  if mode = "append".toList then current.body ++ requested.body else requested.body

def prepareAbstractOverviewWrite (yaml : Yaml) (uri currentRaw requestedRaw mode : Text) :
    Except OverviewError Text :=
  if mode ≠ "replace".toList ∧ mode ≠ "append".toList then
    .error (.value ("unsupported abstract overview write mode: ".toList ++ mode))
  else if filename uri ≠ abstractFilename ∧ filename uri ≠ ".overview.md".toList then
    .error (.value ("not an abstract overview URI: ".toList ++ uri))
  else do
    let current ← parseAbstractOverview yaml currentRaw
    let requested ← parseAbstractOverview yaml requestedRaw
    if requested.legacy = false ∧ requested.metadata ≠ current.metadata then
      .error (.metadata "cannot modify protected abstract overview metadata".toList)
    else
      renderAbstractOverview yaml (if filename uri = abstractFilename then 0 else 1)
        (current.directoryOr uri) (writtenBody mode current requested)
        current.metadata.toMapping

end Overview
end OpenViking
