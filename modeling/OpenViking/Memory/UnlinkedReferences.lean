import OpenViking.Memory.ResourceRefs

/-!
# What unlinking a resource leaves

Tidying the spacing reaches the whole text, so a text is only preserved when what
is left of it needs no tidying.  The cuts themselves are exact, but text that meets
at a cut may be read as a reference that was not there.
-/

namespace OpenViking
namespace Memory
namespace ResourceRefs

open Text Scan List Pattern

/-- What is cut of an address is all but the punctuation that trails it. -/
def leave (refers : Text -> Bool) : Piece Char Text -> List (Piece Char Text)
  | .plain c => [.plain c]
  | .found uri =>
    if refers (trimResourceUri uri) then
      (uri.drop (trimResourceUri uri).length).map .plain
    else [.found uri]

/-- Single characters, and addresses of the resource. -/
def MayCut (refers : Text -> Bool) : Piece Char Text -> Prop
  | .plain _ => True
  | .found uri => refers (trimResourceUri uri) = true

/-- Each cut falls between the pieces that a text is read as, and what stays is
still read as it was, across the cuts too. -/
structure Apart (refers : Text -> Bool) (content : Text) : Prop where
  links : exists ps,
    Pattern.Cuts (MayCut refers) (uriPattern.scan content) ps ∧
      uriPattern.join ps = unlinkMatchingMarkdownResourceLinks refers content ∧
      uriPattern.Reads ps
  bare : uriPattern.Reads
    ((uriPattern.scan
      (unlinkMatchingMarkdownResourceLinks refers content)).flatMap (leave refers))

variable {recursive : Bool} {target content s uri : Text} {refers : Text -> Bool}

/-- Whether a text is read so can be computed, and so can whether a pattern
matches nowhere. -/
instance decidableReads {M : Type} [DecidableEq M] (p : Pattern Char M) :
    forall ps, Decidable (p.Reads ps)
  | [] => isTrue trivial
  | q :: ps =>
    have := decidableReads p ps
    inferInstanceAs (Decidable (p.next (p.join (q :: ps)) = some q ∧ p.Reads ps))

instance : DecidablePred (MayCut refers)
  | .plain _ => isTrue trivial
  | .found uri => inferInstanceAs (Decidable (refers (trimResourceUri uri) = true))

end ResourceRefs
end Memory
end OpenViking
