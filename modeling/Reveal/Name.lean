/-!
# Names

Paragraphs, fragments and link targets are named by runs of name characters: ASCII letters and
digits, the characters U+00C0 to U+00FF, hyphen, underscore and apostrophe.
-/
namespace Reveal

def isNameChar (c : Char) : Bool :=
  c.isAlphanum || (0xC0 ≤ c.toNat && c.toNat ≤ 0xFF) || c == '-' || c == '_' || c == '\''

/-- How many name characters stand at the head of `s`. -/
def nameLength (s : List Char) : Nat :=
  (s.takeWhile isNameChar).length

end Reveal
