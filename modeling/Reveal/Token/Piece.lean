import Reveal.Name
import Reveal.Text.Blank
import Reveal.Token.Basic
/-!
# What a piece of source stands for

A piece is a stretch of source. It stands for a structural token if the whole of it has that
token's form, and otherwise it is text.
-/
namespace Reveal.Token

/-- `>`, a name that may be empty, and at most one blank. -/
def paragraphPiece? (s : List Char) : Option Kind :=
  let name := s.takeWhile isNameChar
  let kind := Kind.paragraph (if name.isEmpty then none else some (String.ofList name))
  match s.dropWhile isNameChar with
  | [] => some kind
  | [c] => if Text.isBlank c then some kind else none
  | _ => none

/-- A name and a colon. -/
def namedFragmentPiece? (s : List Char) : Option Kind :=
  let name := s.takeWhile isNameChar
  match s.dropWhile isNameChar with
  | [':'] => if name.isEmpty then none else some (.fragmentOpen (some (String.ofList name)))
  | _ => none

/-- A caption up to the first closing bracket, and behind it nothing, or `#` and a name. -/
def linkPiece? (s : List Char) : Option Kind :=
  let caption := String.ofList (s.takeWhile (· != ']'))
  match s.dropWhile (· != ']') with
  | [_] => some (.revealLink caption none)
  | _ :: '#' :: c :: target =>
    if (c :: target).all isNameChar then
      some (.revealLink caption (some (String.ofList (c :: target))))
    else none
  | _ => none

/-- The structural token a piece stands for, if the whole piece has its form. -/
def Kind.ofPiece? : List Char → Option Kind
  | ['\x7b'] => some (.fragmentOpen none)
  | ['\x7d'] => some .fragmentClose
  | '\x7b' :: rest => namedFragmentPiece? rest
  | '>' :: rest => paragraphPiece? rest
  | '[' :: rest => linkPiece? rest
  | _ => none

/-- What a piece stands for; text, if nothing else. -/
def Kind.ofPiece (piece : List Char) : Kind :=
  (Kind.ofPiece? piece).getD .text

end Reveal.Token
