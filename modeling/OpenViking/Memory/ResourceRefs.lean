import OpenViking.Common.Scan
import OpenViking.Common.Text

/-!
# References to resources in a memory text

A resource is named in a text by its address, bare or as the target of a
Markdown link.  Unlinking a resource leaves the labels of its links, cuts its
bare addresses out, and then tidies the spacing of the text.

The patterns are read without going back: a run of path characters always ends
at a boundary, and a segment or a label always in front of what ends it.
-/

namespace OpenViking
namespace Memory
namespace ResourceRefs

open Text Scan List Option

/-! ## The patterns -/

def pathStops : Text :=
  "<>])\"'，。；：！？、,;:!?）】》".toList

variable (c : Char)

def pathChar : Bool :=
  !(isSpace c || pathStops.contains c)

def segmentChar : Bool :=
  !(isSpace c || "/<>])\"'".toList.contains c)

def boundary : Text -> Bool
  | [] => true
  | c :: _ => isSpace c || c == '.' || pathStops.contains c

/-- What follows a word at the front of a text. -/
def after (word s : Text) : Option Text :=
  if word.isPrefixOf s then some (s.drop word.length) else none

/-- What follows a run of at least one such character. -/
def afterRun (ok : Char -> Bool) (s : Text) : Option Text :=
  if s.takeWhile ok = [] then none else some (s.dropWhile ok)

/-- `resources`, with a path if one follows. -/
def afterResources (s : Text) : Option Text :=
  (after "resources".toList s).map fun rest =>
    ((after ['/'] rest).bind (afterRun pathChar)).getD rest

/-- `user/alice/`, or `peers/bob/`. -/
def afterOwner (kind s : Text) : Option Text :=
  ((after kind s).bind (afterRun segmentChar)).bind (after ['/'])

def afterUri (s : Text) : Option Text :=
  ((after "viking://".toList s).bind fun s =>
    (afterResources s).or <| (afterOwner "user/".toList s).bind fun s =>
      (afterResources s).or <|
        (afterOwner "peers/".toList s).bind afterResources).filter boundary

def seekUri (s : Text) : Option Text :=
  (afterUri s).map fun rest => s.take (s.length - rest.length)

structure Link where
  label : Text
  uri : Text

def Link.text (link : Link) : Text :=
  '[' :: link.label ++ "](".toList ++ link.uri ++ [')']

def seekLink : Text -> Option Link
  | '[' :: s =>
    let label := s.takeWhile fun c => c != ']' && c != '\n'
    if label = [] then none
    else
      (after "](".toList (s.drop label.length)).bind fun t =>
        (seekUri t).bind fun uri =>
          (after [')'] (t.drop uri.length)).map fun _ => ⟨label, uri⟩
  | _ => none

/-! ### What they match -/

/-- The characters of which an address may be made. -/
def uriChar : Bool :=
  !isSpace c && c != ']'

/-- Reading went from one text on to another over characters of an address. -/
def Reaches (s rest : Text) : Prop :=
  exists w, s = w ++ rest ∧ w.all uriChar = true

variable {s t rest word : Text} {ok : Char -> Bool}

theorem Reaches.trans (h : Reaches s t) (h' : Reaches t rest) : Reaches s rest := by
  rcases h with ⟨w, rfl, hw⟩
  rcases h' with ⟨w', rfl, hw'⟩
  exact ⟨w ++ w', (append_assoc _ _ _).symm, by
    rw [all_append, hw, hw', Bool.and_true]⟩

theorem eq_of_after (h : after word s = some rest) : s = word ++ rest := by
  unfold after at h
  split at h
  · next hword =>
      cases h
      rcases isPrefixOf_iff_prefix.mp hword with ⟨t, rfl⟩
      rw [drop_left]
  · cases h

theorem after_reaches (hw : word.all uriChar = true) (h : after word s = some rest) :
    Reaches s rest :=
  ⟨word, eq_of_after h, hw⟩

theorem afterRun_reaches (hok : forall c, ok c = true -> uriChar c = true)
    (h : afterRun ok s = some rest) : Reaches s rest := by
  unfold afterRun at h
  split at h
  · cases h
  · cases h
    refine ⟨s.takeWhile ok, takeWhile_append_dropWhile.symm, ?_⟩
    exact all_eq_true.mpr fun c hc => hok c (mem_takeWhile_imp hc)

theorem uriChar_of_pathChar (h : pathChar c = true) : uriChar c = true := by
  have hstop : pathStops.contains ']' = true := by decide
  simp only [pathChar, Bool.not_or, Bool.and_eq_true] at h
  simp only [uriChar, Bool.and_eq_true, bne_iff_ne]
  refine ⟨h.1, fun hc => ?_⟩
  rw [hc, hstop] at h
  exact absurd h.2 (by decide)

theorem uriChar_of_segmentChar (h : segmentChar c = true) : uriChar c = true := by
  simp only [segmentChar, Bool.not_or, Bool.and_eq_true] at h
  simp only [uriChar, Bool.and_eq_true, bne_iff_ne]
  refine ⟨h.1, fun hc => ?_⟩
  rw [hc] at h
  exact absurd h.2 (by decide)

theorem afterResources_reaches (h : afterResources s = some rest) :
    Reaches s rest := by
  rcases map_eq_some_iff.mp h with ⟨t, ht, hrest⟩
  have hword := after_reaches (by decide) ht
  cases hpath : (after ['/'] t).bind (afterRun pathChar) with
  | none =>
    rw [hpath] at hrest
    exact hrest ▸ hword
  | some u =>
    rw [hpath] at hrest
    rcases bind_eq_some_iff.mp hpath with ⟨v, hv, hu⟩
    exact hrest ▸ (hword.trans (after_reaches (by decide) hv)).trans
      (afterRun_reaches uriChar_of_pathChar hu)

theorem afterOwner_reaches (hk : word.all uriChar = true)
    (h : afterOwner word s = some rest) : Reaches s rest := by
  rcases bind_eq_some_iff.mp h with ⟨t, ht, hrest⟩
  rcases bind_eq_some_iff.mp ht with ⟨u, hu, ht⟩
  exact ((after_reaches hk hu).trans
    (afterRun_reaches uriChar_of_segmentChar ht)).trans
      (after_reaches (by decide) hrest)

theorem afterUri_reaches (h : afterUri s = some rest) :
    exists t, s = "viking://".toList ++ t ∧ Reaches t rest := by
  have h := (filter_eq_some_iff.mp h).1
  rcases bind_eq_some_iff.mp h with ⟨t, ht, h⟩
  refine ⟨t, eq_of_after ht, ?_⟩
  rcases or_eq_some_iff.mp h with h | ⟨_, h⟩
  · exact afterResources_reaches h
  · rcases bind_eq_some_iff.mp h with ⟨u, hu, h⟩
    have huser := afterOwner_reaches (by decide) hu
    rcases or_eq_some_iff.mp h with h | ⟨_, h⟩
    · exact huser.trans (afterResources_reaches h)
    · rcases bind_eq_some_iff.mp h with ⟨v, hv, h⟩
      exact (huser.trans (afterOwner_reaches (by decide) hv)).trans
        (afterResources_reaches h)

theorem seekUri_eq {uri : Text} (h : seekUri s = some uri) :
    uri <+: s ∧ "viking://".toList <+: uri ∧ uri.all uriChar = true := by
  rcases map_eq_some_iff.mp h with ⟨rest, hrest, huri⟩
  rcases afterUri_reaches hrest with ⟨t, rfl, w, rfl, hw⟩
  rw [← append_assoc, length_append, Nat.add_sub_cancel,
    take_left] at huri
  rw [← huri, ← append_assoc]
  refine ⟨prefix_append _ _, prefix_append _ _, ?_⟩
  rw [all_append, hw]
  decide

def uriPattern : Pattern Char Text where
  seek := seekUri
  text uri := uri
  sound h := by
    rcases seekUri_eq h with ⟨hfront, ⟨t, rfl⟩, _⟩
    exact ⟨List.cons_ne_nil _ _, hfront⟩

theorem seekLink_eq {link : Link} (h : seekLink s = some link) :
    exists t, s = '[' :: link.label ++ ']' :: '(' :: t ∧
      seekUri t = some link.uri ∧ link.uri ++ [')'] <+: t := by
  unfold seekLink at h
  split at h
  · next s =>
      dsimp only at h
      split at h
      · cases h
      rcases bind_eq_some_iff.mp h with ⟨t, ht, h⟩
      rcases bind_eq_some_iff.mp h with ⟨uri, huri, h⟩
      rcases map_eq_some_iff.mp h with ⟨rest, hrest, rfl⟩
      refine ⟨t, ?_, huri, ?_⟩
      · have hlabel := prefix_iff_eq_append.mp
          (List.takeWhile_prefix (fun c => c != ']' && c != '\n') (l := s))
        rw [eq_of_after ht] at hlabel
        exact congrArg (cons '[') hlabel.symm
      · rcases (seekUri_eq huri).1 with ⟨u, rfl⟩
        rw [drop_left] at hrest
        rw [eq_of_after hrest]
        exact ⟨rest, by simp⟩
  · cases h

def linkPattern : Pattern Char Link where
  seek := seekLink
  text := Link.text
  sound h := by
    rcases seekLink_eq h with ⟨t, rfl, _, rest, rfl⟩
    exact ⟨List.cons_ne_nil _ _, rest, by simp [Link.text]⟩

/-! ## References -/

def trailingPunctuation : Text :=
  ".,;:!?，。；：！？、）】》".toList

def trimResourceUri (uri : Text) : Text :=
  uri.rdropWhile trailingPunctuation.contains

/-- An address without what may trail it. -/
def normalized (uri : Text) : Text :=
  (trimResourceUri uri).rdropWhile (· == '/')

def unlinkMatchingMarkdownResourceLinks (refers : Text -> Bool) (content : Text) :
    Text :=
  linkPattern.sub
    (fun link => if refers link.uri then strip link.label else link.text) content

end ResourceRefs
end Memory
end OpenViking
