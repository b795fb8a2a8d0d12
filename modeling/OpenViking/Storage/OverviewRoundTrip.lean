import OpenViking.Storage.OverviewText

/-!
# Sidecars are read back

What is rendered is parsed again, except for the root directory.
-/

namespace OpenViking
namespace Overview

open Text List
open Segments (stripRight)
open Semantic (Freshness)

/-!
# Lines of a joined text
-/

theorem flatten_splitLines (text : Text) : (splitLines text).flatten = text := by
  induction text with
  | nil => rfl
  | cons c rest ih =>
    rw [splitLines]
    split
    · rw [flatten_cons, ih]
      rfl
    split
    · rename_i hnil
      rw [hnil] at ih
      rw [← ih]
      rfl
    · rename_i hcons
      rw [hcons] at ih
      rw [← ih]
      rfl

theorem splitLines_append (text rest : Text) :
    splitLines (text ++ '\n' :: rest) = splitLines (text ++ ['\n']) ++ splitLines rest := by
  induction text with
  | nil => rfl
  | cons c text ih =>
    have hhead : (text ++ '\n' :: rest).head? = (text ++ ['\n']).head? := by
      cases text <;> rfl
    rw [cons_append, cons_append, splitLines, splitLines, hhead, ih]
    split
    · rfl
    · cases hlines : splitLines (text ++ ['\n']) with
      | nil =>
        have hflat := flatten_splitLines (text ++ ['\n'])
        rw [hlines] at hflat
        exact absurd hflat.symm (append_ne_nil_of_right_ne_nil _ (cons_ne_nil _ _))
      | cons line lines => rfl

theorem strip_append_newline (text : Text) : strip (text ++ ['\n']) = strip text := by
  rw [strip, strip, lstrip, lstrip, dropWhile_append]
  split
  · rename_i hempty
    rw [isEmpty_iff.mp hempty]
    rfl
  · exact rdropWhile_concat_pos _ _ _ rfl

/-!
# Directories
-/

theorem stripRight_append (sep : Char) (xs ys : Text) :
    stripRight sep (xs ++ ys) =
      if stripRight sep ys = [] then stripRight sep xs
      else xs ++ stripRight sep ys := by
  simp only [stripRight, List.rdropWhile, List.reverse_append, List.dropWhile_append,
    List.isEmpty_iff, List.reverse_eq_nil_iff]
  split
  · rfl
  · rw [List.reverse_append, List.reverse_reverse]

theorem strip_of_uri (text : Text) :
    strip ('v' :: (text ++ ['/'])) = 'v' :: (text ++ ['/']) :=
  rdropWhile_concat_neg isSpace ('v' :: text) '/' (by decide)

variable {directory : Text}

variable {dirUri : Text}

/-- The root directory loses a slash of its scheme. -/
theorem normalizeDirectoryUri_again
    (h : normalizeDirectoryUri dirUri = .ok directory) :
    normalizeDirectoryUri directory =
      if stripRight '/' (strip dirUri) = "viking:".toList then
        .error (.format "abstract overview directory must be a viking:// URI".toList)
      else .ok directory := by
  unfold normalizeDirectoryUri at h
  dsimp only at h
  split at h
  · cases h
  split at h
  · rename_i hscheme
    rcases hscheme with ⟨rest, hrest⟩
    cases h
    rw [← hrest, stripRight_append]
    by_cases hroot : stripRight '/' rest = []
    · rw [if_pos hroot]
      decide
    have hne : scheme ++ stripRight '/' rest ≠ "viking:".toList := by
      intro heq
      have hlen := congrArg length heq
      rw [length_append, show scheme.length = 9 from by decide,
        show "viking:".toList.length = 7 from by decide] at hlen
      omega
    rw [if_neg hroot, if_neg hne]
    have hstrip : strip (scheme ++ stripRight '/' rest ++ ['/']) =
        scheme ++ stripRight '/' rest ++ ['/'] := strip_of_uri _
    have htrim : stripRight '/' (scheme ++ stripRight '/' rest ++ ['/']) =
        scheme ++ stripRight '/' rest := by
      rw [stripRight_append, if_pos (by decide), stripRight_append,
        show stripRight '/' (stripRight '/' rest) = stripRight '/' rest from
          rdropWhile_idempotent _ _, if_neg hroot]
    unfold normalizeDirectoryUri
    rw [hstrip]
    dsimp only
    rw [htrim]
    exact (if_neg (cons_ne_nil _ _)).trans (if_pos
      ((prefix_append _ _).trans (prefix_append _ _)))
  · cases h

/-!
# Metadata
-/

theorem boundedString_text {limit : Nat} (label : Label limit) (field : Text) :
    boundedString (.str label.text) field limit = .ok label := by
  rcases label with ⟨text, hstripped, hne, hle⟩
  simp only [boundedString, hstripped, hne, Nat.not_lt.mpr hle, dif_neg, not_false_iff]

variable {metadata : Mapping}

theorem normalizeLabels_of_lookup {name first second : Text}
    {limit : Nat} (hne : first ≠ second)
    (labels : Option (Label maxLabelChars × Label limit))
    (h : metadata.lookup name = labels.map (labelsValue first second)) :
    normalizeLabels metadata name first second limit = .ok labels := by
  unfold normalizeLabels
  rw [h]
  cases labels with
  | none => rfl
  | some labels =>
    have hsecond : (second == first) = false := beq_false_of_ne hne.symm
    simp [labelsValue, lookup_cons, hsecond, boundedString_text]
    rfl

theorem counter_of_lookup {entries : Mapping} {field : Text} {n : Nat}
    (h : entries.lookup field = some (.int n)) : counter entries field = .ok n := by
  unfold counter
  rw [h]
  exact if_pos (Int.natCast_nonneg n)

theorem normalizeFreshness_of_lookup (freshness : Option Freshness)
    (h : metadata.lookup "freshness".toList = freshness.map freshnessValue) :
    normalizeFreshness metadata = .ok freshness := by
  unfold normalizeFreshness
  rw [h]
  cases freshness with
  | none => rfl
  | some freshness =>
    rcases freshness with ⟨total, sampled, unsampled, pending, hcovers⟩
    dsimp only [Option.map_some, freshnessValue]
    refine (if_pos rfl).trans ?_
    rw [counter_of_lookup (n := total) rfl, counter_of_lookup (n := sampled) rfl,
      counter_of_lookup (n := unsampled) rfl, counter_of_lookup (n := pending) rfl]
    exact dif_pos hcovers

theorem normalizeRest_toMapping (metadata : Metadata) (directory : Option Text) :
    normalizeRest metadata.toMapping directory =
      .ok { metadata with directory := directory } := by
  have hsource : metadata.toMapping.lookup "source".toList =
      metadata.source.map (labelsValue "kind".toList "uri".toList) := by
    rcases metadata with ⟨_ | _, _ | _, _ | _, _ | _⟩ <;> rfl
  have hgeneratedBy : metadata.toMapping.lookup "generated_by".toList =
      metadata.generatedBy.map (labelsValue "component".toList "trigger".toList) := by
    rcases metadata with ⟨_ | _, _ | _, _ | _, _ | _⟩ <;> rfl
  have hfreshness : metadata.toMapping.lookup "freshness".toList =
      metadata.freshness.map freshnessValue := by
    rcases metadata with ⟨_ | _, _ | _, _ | _, _ | _⟩ <;> rfl
  rw [normalizeRest, normalizeSource, normalizeGeneratedBy,
    normalizeLabels_of_lookup (by decide) _ hsource,
    normalizeLabels_of_lookup (by decide) _ hgeneratedBy,
    normalizeFreshness_of_lookup _ hfreshness]
  rfl

theorem normalizeRest_directory {directory : Option Text}
    {normalized : Metadata} (h : normalizeRest metadata directory = .ok normalized) :
    normalized.directory = directory := by
  rcases bind_ok h with ⟨_, _, h⟩
  rcases bind_ok h with ⟨_, _, h⟩
  rcases bind_ok h with ⟨_, _, h⟩
  cases h
  rfl

theorem normalizeMetadata_toMapping {metadata : Metadata}
    (h : metadata.directory = some directory)
    (hagain : normalizeDirectoryUri directory = .ok directory) :
    normalizeMetadata metadata.toMapping = .ok metadata := by
  rcases metadata with ⟨_, source, generatedBy, freshness⟩
  cases h
  have hrest := normalizeRest_toMapping ⟨some directory, source, generatedBy, freshness⟩
    (some directory)
  show (do
    let directory ← normalizeDirectoryUri directory
    normalizeRest _ (some directory)) = _
  rw [hagain]
  exact hrest

/-!
# Parse and render
-/

/-- The library reads back what it dumps of a mapping, and the dump ends its last line and
has no marker. -/
structure Yaml.Keeps (yaml : Yaml) (metadata : Metadata) : Prop where
  loads : yaml.safeLoad (yaml.safeDump metadata.toMapping) =
    .ok (.mapping metadata.toMapping)
  ends : rstrip (yaml.safeDump metadata.toMapping) ++ ['\n'] =
    yaml.safeDump metadata.toMapping
  unmarked : forall line, line ∈ splitLines (yaml.safeDump metadata.toMapping) ->
    isMarker line = false

variable {yaml : Yaml}

theorem parse_sidecarText {metadata : Metadata}
    (hyaml : yaml.Keeps metadata) (hdirectory : metadata.directory = some directory)
    (hagain : normalizeDirectoryUri directory = .ok directory) (body : Text) :
    parseAbstractOverview yaml
        (sidecarText (rstrip (yaml.safeDump metadata.toMapping)) body) =
      .ok ⟨metadata, body ++ ['\n'], false⟩ := by
  have hlines : splitLines
      (sidecarText (rstrip (yaml.safeDump metadata.toMapping)) body) =
      "---\n".toList :: (splitLines (yaml.safeDump metadata.toMapping) ++
        "---\n".toList :: splitLines ('\n' :: (body ++ ['\n']))) := by
    have htext : sidecarText (rstrip (yaml.safeDump metadata.toMapping)) body =
        "---".toList ++ '\n' :: (rstrip (yaml.safeDump metadata.toMapping) ++ '\n' ::
          ("---".toList ++ '\n' :: ('\n' :: (body ++ ['\n'])))) := by
      rw [sidecarText, append_assoc]
      rfl
    rw [htext, splitLines_append, splitLines_append (rstrip _), hyaml.ends,
      splitLines_append "---".toList]
    rfl
  have hkept : forall line, line ∈ splitLines (yaml.safeDump metadata.toMapping) ->
      (!isMarker line) = true := fun line hline => by
    rw [hyaml.unmarked line hline]
    rfl
  unfold parseAbstractOverview
  rw [hlines]
  dsimp only
  rw [if_pos (by decide), dropWhile_append_of_pos hkept,
    takeWhile_append_of_pos hkept, dropWhile_cons_of_neg (by decide),
    takeWhile_cons_of_neg (by decide), append_nil, flatten_splitLines]
  dsimp only
  rw [hyaml.loads, flatten_splitLines]
  have hlookup : (metadata.toMapping.lookup "directory".toList).isSome = true := by
    rcases metadata with ⟨_, source, generatedBy, freshness⟩
    cases hdirectory
    rfl
  dsimp only
  rw [frontmatter, if_pos hlookup, normalizeMetadata_toMapping hdirectory hagain]
  rfl

theorem render_eq {level : Int} (hlevel : level = 0 ∨ level = 1) (yaml : Yaml)
    (dirUri body : Text) (metadata : Mapping) :
    renderAbstractOverview yaml level dirUri body metadata = (do
      let directory ← normalizeDirectoryUri dirUri
      let again ← normalizeDirectoryUri directory
      let normalized ← normalizeRest metadata (some again)
      return sidecarText (rstrip (yaml.safeDump normalized.toMapping)) (strip body)) := by
  have hfields : forall directory, normalizeMetadata
      (("directory".toList, Value.str directory) :: metadata) = (do
        let again ← normalizeDirectoryUri directory
        normalizeRest metadata (some again)) := fun _ => rfl
  rw [renderAbstractOverview, if_neg (by omega), if_neg (by omega)]
  simp only [hfields, bind_assoc]

/-!
# Round trips
-/

/-- The text that is rendered is parsed to the metadata and the stripped body, and these
are rendered the same. -/
def RoundTrips (yaml : Yaml) (level : Int) (dirUri body : Text) (metadata : Mapping)
    (normalized : Metadata) : Prop :=
  exists text, renderAbstractOverview yaml level dirUri body metadata = .ok text ∧
    parseAbstractOverview yaml text = .ok ⟨normalized, strip body ++ ['\n'], false⟩ ∧
    renderAbstractOverview yaml level dirUri (strip body ++ ['\n'])
      normalized.toMapping = .ok text

/-- A write leaves the stored metadata, or the directory of a legacy sidecar, and the
body that it was asked for. -/
def WritesBody (yaml : Yaml) (uri currentRaw requestedRaw mode text : Text) : Prop :=
  exists current requested written,
    parseAbstractOverview yaml currentRaw = .ok current ∧
    parseAbstractOverview yaml requestedRaw = .ok requested ∧
    parseAbstractOverview yaml text = .ok written ∧ written.legacy = false ∧
    (current.legacy = false -> written.metadata = current.metadata) ∧
    (current.legacy = true -> exists directory,
      normalizeDirectoryUri (parentUri uri) = .ok directory ∧
      written.metadata = ⟨some directory, none, none, none⟩) ∧
    strip written.body = strip (writtenBody mode current requested)

theorem roundTrips_iff {level : Int}
    {normalized : Metadata} (hlevel : level = 0 ∨ level = 1)
    (hdirectory : normalizeDirectoryUri dirUri = .ok directory)
    (hrest : normalizeRest metadata (some directory) = .ok normalized)
    (hyaml : yaml.Keeps normalized) (body : Text) :
    RoundTrips yaml level dirUri body metadata normalized <->
      stripRight '/' (strip dirUri) ≠ "viking:".toList := by
  have hagain := normalizeDirectoryUri_again hdirectory
  constructor
  · rintro ⟨text, hrender, _⟩ hroot
    rw [if_pos hroot] at hagain
    rw [render_eq hlevel, hdirectory] at hrender
    change (normalizeDirectoryUri directory >>= _) = _ at hrender
    rw [hagain] at hrender
    cases hrender
  · intro hroot
    rw [if_neg hroot] at hagain
    have hkept := normalizeRest_directory hrest
    refine ⟨_, ?_, parse_sidecarText hyaml hkept hagain (strip body), ?_⟩
    · rw [render_eq hlevel, hdirectory]
      change (normalizeDirectoryUri directory >>= _) = _
      rw [hagain]
      change (normalizeRest metadata (some directory) >>= _) = _
      rw [hrest]
      rfl
    · rw [render_eq hlevel, hdirectory]
      change (normalizeDirectoryUri directory >>= _) = _
      rw [hagain]
      change (normalizeRest _ (some directory) >>= _) = _
      rw [normalizeRest_toMapping, ← hkept, strip_append_newline, strip_strip]
      rfl

theorem frontmatter_directory {loaded : Value} {metadata : Metadata}
    (h : frontmatter loaded = .ok metadata) :
    exists dirUri directory, normalizeDirectoryUri dirUri = .ok directory ∧
      metadata.directory = some directory := by
  cases loaded with
  | mapping entries =>
    rw [frontmatter] at h
    split at h
    · rename_i hsome
      rcases Option.isSome_iff_exists.mp hsome with ⟨value, hlookup⟩
      rw [normalizeMetadata, hlookup] at h
      rcases bind_ok h with ⟨directory, hdirectory, h⟩
      exact ⟨_, directory, hdirectory, normalizeRest_directory h⟩
    · cases h
  | _ => cases h

theorem parse_cases {text : Text} {document : Document}
    (h : parseAbstractOverview yaml text = .ok document) :
    (document.legacy = true ∧ document.metadata = noMetadata) ∨
      (document.legacy = false ∧ exists dirUri directory,
        normalizeDirectoryUri dirUri = .ok directory ∧
        document.metadata.directory = some directory) := by
  unfold parseAbstractOverview at h
  split at h
  · cases h
    exact .inl ⟨rfl, rfl⟩
  split at h
  · split at h
    · cases h
    split at h
    · cases h
    rename_i loaded _
    cases hmetadata : frontmatter loaded with
    | error error =>
      rw [hmetadata] at h
      cases h
    | ok metadata =>
      rw [hmetadata] at h
      cases h
      exact .inr ⟨rfl, frontmatter_directory hmetadata⟩
  · cases h
    exact .inl ⟨rfl, rfl⟩

theorem directoryOr_of_directory {document : Document}
    (hdirectory : normalizeDirectoryUri dirUri = .ok directory)
    (h : document.metadata.directory = some directory) (uri : Text) :
    document.directoryOr uri = directory := by
  rw [Document.directoryOr, h]
  cases directory with
  | cons c rest => rfl
  | nil =>
    unfold normalizeDirectoryUri at hdirectory
    dsimp only at hdirectory
    split at hdirectory
    · cases hdirectory
    · split at hdirectory
      · exact absurd (Except.ok.inj hdirectory)
          (append_ne_nil_of_right_ne_nil _ (cons_ne_nil _ _))
      · cases hdirectory

theorem writesBody_of_prepare {uri currentRaw requestedRaw mode text : Text}
    (h : prepareAbstractOverviewWrite yaml uri currentRaw requestedRaw mode = .ok text)
    (hyaml : forall current directory,
      parseAbstractOverview yaml currentRaw = .ok current ->
      normalizeDirectoryUri (current.directoryOr uri) = .ok directory ->
      yaml.Keeps { current.metadata with directory := some directory }) :
    WritesBody yaml uri currentRaw requestedRaw mode text := by
  unfold prepareAbstractOverviewWrite at h
  split at h
  · cases h
  split at h
  · cases h
  rcases bind_ok h with ⟨current, hcurrent, h⟩
  rcases bind_ok h with ⟨requested, hrequested, h⟩
  split at h
  · cases h
  rw [render_eq (by split <;> simp)] at h
  rcases bind_ok h with ⟨directory, hdirectory, h⟩
  rcases bind_ok h with ⟨again, hagain, h⟩
  rcases bind_ok h with ⟨written, hwritten, h⟩
  have hsame := hagain
  rw [normalizeDirectoryUri_again hdirectory] at hsame
  split at hsame
  · cases hsame
  cases hsame
  rw [normalizeRest_toMapping] at hwritten
  cases hwritten
  cases h
  refine ⟨current, requested, _, hcurrent, hrequested,
    parse_sidecarText (hyaml current directory hcurrent hdirectory) rfl hagain _,
    rfl, ?_, ?_, ?_⟩
  · intro hstored
    rcases parse_cases hcurrent with ⟨hlegacy, _⟩ | ⟨_, dirUri, stored, huri, hkept⟩
    · rw [hlegacy] at hstored
      cases hstored
    · rw [directoryOr_of_directory huri hkept, normalizeDirectoryUri_again huri]
        at hdirectory
      split at hdirectory
      · cases hdirectory
      · cases hdirectory
        dsimp only
        rw [← hkept]
  · intro hlegacy
    rcases parse_cases hcurrent with ⟨_, hnone⟩ | ⟨hstored, _⟩
    · rw [hnone]
      rw [Document.directoryOr, hnone] at hdirectory
      exact ⟨directory, hdirectory, rfl⟩
    · rw [hlegacy] at hstored
      cases hstored
  · rw [strip_append_newline, strip_strip]

/-- Rendered sidecars are read back exactly when they are not the root's, and a write
keeps the stored metadata. -/
theorem sidecars_round_trip (yaml : Yaml) :
    (forall (level : Int) (dirUri body : Text) (metadata : Mapping) (directory : Text)
      (normalized : Metadata), level = 0 ∨ level = 1 ->
      normalizeDirectoryUri dirUri = .ok directory ->
      normalizeRest metadata (some directory) = .ok normalized ->
      yaml.Keeps normalized ->
      (RoundTrips yaml level dirUri body metadata normalized <->
        stripRight '/' (strip dirUri) ≠ "viking:".toList)) ∧
    forall uri currentRaw requestedRaw mode text : Text,
      prepareAbstractOverviewWrite yaml uri currentRaw requestedRaw mode = .ok text ->
      (forall current directory,
        parseAbstractOverview yaml currentRaw = .ok current ->
        normalizeDirectoryUri (current.directoryOr uri) = .ok directory ->
        yaml.Keeps { current.metadata with directory := some directory }) ->
      WritesBody yaml uri currentRaw requestedRaw mode text :=
  ⟨fun _ _ body _ _ _ hlevel hdirectory hrest hyaml =>
      roundTrips_iff hlevel hdirectory hrest hyaml body,
    fun _ _ _ _ _ h hyaml => writesBody_of_prepare h hyaml⟩

/-!
# A legacy sidecar
-/

def docs : Text := "viking://resources/docs/".toList

def sampleMetadata : Metadata := ⟨some docs, none, none, none⟩

def sampleYaml : Yaml where
  safeDump := fun _ => "directory: viking://resources/docs/\n".toList
  safeLoad := fun _ => .ok (.mapping sampleMetadata.toMapping)

theorem sampleYaml_keeps : sampleYaml.Keeps sampleMetadata where
  loads := rfl
  ends := by decide +kernel
  unmarked := by decide +kernel

def sampleUri : Text := docs ++ ".abstract.md".toList

/-- The body of the write starts with a rule. -/
theorem sidecars_round_trip_sample :
    RoundTrips sampleYaml 0 docs "---\nText".toList [] sampleMetadata ∧
      WritesBody sampleYaml sampleUri "Old".toList "New\n---".toList "append".toList
        (sidecarText "directory: viking://resources/docs/".toList
          "OldNew\n---".toList) := by
  constructor
  · exact ((sidecars_round_trip sampleYaml).1 0 docs _ [] docs sampleMetadata (Or.inl rfl)
      (by decide +kernel) rfl sampleYaml_keeps).mpr (by decide +kernel)
  apply (sidecars_round_trip sampleYaml).2
  · decide +kernel
  · intro current directory hcurrent hdirectory
    cases hcurrent
    have hdocs : directory = docs :=
      Except.ok.inj (hdirectory.symm.trans (by decide +kernel))
    rw [hdocs]
    exact sampleYaml_keeps

/-- The overview of the root directory cannot be rendered. -/
theorem root_not_rendered :
    ¬ forall (dirUri directory body : Text),
      normalizeDirectoryUri dirUri = .ok directory ->
      exists text, renderAbstractOverview sampleYaml 1 dirUri body [] = .ok text := by
  intro h
  rcases h scheme "viking:/".toList "Text".toList (by decide +kernel) with ⟨text, htext⟩
  cases htext

end Overview
end OpenViking
