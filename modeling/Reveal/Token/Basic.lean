import Reveal.Position
/-!
# Tokens

A source is a sequence of tokens: paragraph marks, the two ends of fragments, reveal links, and the
text between them. A token keeps the text it was read from, so a source is its tokens' texts in a
row.
-/
namespace Reveal

namespace Token

/-- What a token stands for. -/
inductive Kind where
  /-- `>name` starts a paragraph. -/
  | paragraph (name : Option String)
  /-- An opening brace, or one with `name:` behind it, opens a fragment. -/
  | fragmentOpen (name : Option String)
  /-- A closing brace closes a fragment. -/
  | fragmentClose
  /-- `[caption]` or `[caption]#target` is a link that reveals a fragment or a paragraph. -/
  | revealLink (caption : String) (target : Option String)
  | text
  deriving DecidableEq, Repr

end Token

structure Token where
  kind : Token.Kind
  text : String
  /-- Byte offset of the first character. -/
  start : Nat
  /-- Byte offset behind the last character. -/
  stop : Nat
  deriving DecidableEq, Repr

namespace Token

def isText (t : Token) : Bool :=
  t.kind == .text

/-- The text the tokens were read from. -/
def join (tokens : List Token) : String :=
  String.join (tokens.map text)

/-- The position at which the token of the given index starts, found by reading the texts before
it. An index past the last token gives the end. -/
def positionOf (tokens : List Token) (index : Nat) : Position :=
  (tokens.take index).foldl (fun p t => p.after t.text.toList) .start

end Token

end Reveal
