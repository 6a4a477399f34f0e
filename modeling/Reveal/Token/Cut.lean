import Reveal.LineMap
import Reveal.Token.Piece
/-!
# Cutting a source into tokens

A source is cut three times: at braces, then every piece at paragraph marks, then every piece at
links. Each cut keeps the delimiters as pieces of their own and drops empty pieces. What the pieces
stand for is then read off each piece alone.
-/
namespace Reveal

namespace Token

/-! ## Delimiters

A delimiter is given by the number of characters it takes at the head of a text, where 0 means that
none starts there. -/

/-- A closing brace, or an opening brace with the name and colon behind it. -/
def braceLength : List Char → Nat
  | '\x7d' :: _ => 1
  | '\x7b' :: rest =>
    match nameLength rest, rest.dropWhile isNameChar with
    | n + 1, ':' :: _ => n + 3
    | _, _ => 1
  | _ => 0

/-- A paragraph mark with its name and one blank behind it. -/
def markLength : List Char → Nat
  | '>' :: rest =>
    match rest.dropWhile isNameChar with
    | c :: _ => if Text.isBlank c then nameLength rest + 2 else nameLength rest + 1
    | [] => nameLength rest + 1
  | _ => 0

/-- The `#name` behind a link's caption. -/
def targetLength : List Char → Nat
  | '#' :: rest => if nameLength rest = 0 then 0 else nameLength rest + 1
  | _ => 0

/-- A link: its caption in brackets and its target. A bracket that is never closed starts none. -/
def linkLength : List Char → Nat
  | '[' :: rest =>
    match rest.dropWhile (· != ']') with
    | _ :: behind => (rest.takeWhile (· != ']')).length + 2 + targetLength behind
    | [] => 0
  | _ => 0

/-! ## Cuts -/

/-- A piece that ends here, unless it is empty. -/
def flush (taken : List Char) : List (List Char) :=
  if taken.isEmpty then [] else [taken.reverse]

/-- Cuts a text at its delimiters. `taken` is the piece begun so far, latest character first. -/
def cutFrom (delimiter : List Char → Nat) (taken : List Char) : List Char → List (List Char)
  | [] => flush taken
  | c :: rest =>
    match delimiter (c :: rest) with
    | 0 => cutFrom delimiter (c :: taken) rest
    | n + 1 => flush taken ++ (c :: rest.take n) :: cutFrom delimiter [] (rest.drop n)
termination_by s => s.length
decreasing_by all_goals simp; try omega

def cut (delimiter : List Char → Nat) (s : List Char) : List (List Char) :=
  cutFrom delimiter [] s

/-- The pieces of a source, after all three cuts. -/
def pieces (source : List Char) : List (List Char) :=
  (((cut braceLength source).flatMap (cut markLength)).flatMap (cut linkLength))

/-! ## Tokens -/

/-- The tokens of pieces that follow each other from byte `start` on. -/
def ofPieces (start : Nat) : List (List Char) → List Token
  | [] => []
  | piece :: rest =>
    let stop := start + byteLength piece
    ⟨Kind.ofPiece piece, String.ofList piece, start, stop⟩ :: ofPieces stop rest

end Token

/-- The tokens of a source. -/
def tokenize (source : String) : List Token :=
  Token.ofPieces 0 (Token.pieces source.toList)

end Reveal
