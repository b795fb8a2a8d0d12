import Mathlib.Data.List.DropRight
import OpenViking.Common.Path

/-!
# Texts

A text is the list of its characters.
-/

namespace OpenViking

abbrev Text := List Char

namespace Text

/-- The characters that a strip takes off. -/
def isSpace (c : Char) : Bool :=
  let n := c.toNat
  (9 ≤ n && n ≤ 13) || (28 ≤ n && n ≤ 32) || n == 0x85 || n == 0xA0 ||
    n == 0x1680 || (0x2000 ≤ n && n ≤ 0x200A) || n == 0x2028 || n == 0x2029 ||
    n == 0x202F || n == 0x205F || n == 0x3000

variable (text : Text)

def lstrip : Text :=
  text.dropWhile isSpace

def rstrip : Text :=
  text.rdropWhile isSpace

def strip : Text :=
  rstrip (lstrip text)

theorem lstrip_suffix : lstrip text <:+ text :=
  List.dropWhile_suffix isSpace

theorem rstrip_front : rstrip text <+: text :=
  List.rdropWhile_prefix isSpace text

end Text
end OpenViking
