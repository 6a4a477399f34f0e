/-!
# Positions in a source

Lines and columns count from 1. A column counts characters, and only a line feed starts a new line.
-/
namespace Reveal

structure Position where
  line : Nat
  column : Nat
  deriving DecidableEq, Repr

namespace Position

/-- Where every source begins. -/
def start : Position := ⟨1, 1⟩

/-- The position after a character. -/
def next (p : Position) (c : Char) : Position :=
  if c = '\n' then ⟨p.line + 1, 1⟩ else ⟨p.line, p.column + 1⟩

/-- The position after a text. -/
def after (p : Position) (s : List Char) : Position :=
  s.foldl next p

/-- The form used in messages. -/
def text (p : Position) : String :=
  toString p.line ++ ":" ++ toString p.column

/-- The form used in attributes. -/
def attr (p : Position) : String :=
  toString p.line ++ "," ++ toString p.column

theorem after_append (p : Position) (s t : List Char) : p.after (s ++ t) = (p.after s).after t :=
  List.foldl_append

end Position

end Reveal
