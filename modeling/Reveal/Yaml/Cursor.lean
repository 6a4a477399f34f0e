import Reveal.Yaml.Style
/-!
# A place in a YAML text

A cursor is what is left of a text together with the place it starts at. Lines and columns are
counted from 0, and a carriage return with its line feed ends one line.
-/
namespace Reveal.Yaml

structure Mark where
  /-- How many bytes stand before. -/
  index : Nat
  line : Nat
  column : Nat
  deriving DecidableEq, Repr

namespace Mark

def start : Mark := ⟨0, 0, 0⟩

/-- The place behind a text. -/
def advance (m : Mark) : List Char → Mark
  | '\r' :: '\n' :: rest => advance ⟨m.index + 2, m.line + 1, 0⟩ rest
  | c :: rest =>
    if isBreak c then advance ⟨m.index + c.utf8Size, m.line + 1, 0⟩ rest
    else advance ⟨m.index + c.utf8Size, m.line, m.column + 1⟩ rest
  | [] => m

/-- Whether the place is the very first. -/
def isStart (m : Mark) : Bool :=
  m.line == 0 && m.column == 0

def text (m : Mark) : String :=
  "line " ++ toString (m.line + 1) ++ " column " ++ toString (m.column + 1)

/-- How a message names a place. The very first is left out. -/
def location (m : Mark) : String :=
  if m.isStart then "" else " at " ++ m.text

end Mark

/-- Why a text is not YAML: what went wrong and where, and what was being read since when. -/
structure Complaint where
  problem : String
  mark : Mark
  context : Option (String × Mark) := none
  deriving Repr

/-- The place of the context is left out where it is that of the problem. -/
def Complaint.message (c : Complaint) : String :=
  c.problem ++ c.mark.location ++
    match c.context with
    | none => ""
    | some (context, mark) =>
      let here := mark.line == c.mark.line && mark.column == c.mark.column
      ", " ++ context ++ (if here then "" else mark.location)

structure Cursor where
  rest : List Char
  mark : Mark
  deriving Repr

namespace Cursor

def ofChars (s : List Char) : Cursor := ⟨s, .start⟩

/-- Moves over `n` characters. -/
def drop (c : Cursor) (n : Nat) : Cursor :=
  ⟨c.rest.drop n, c.mark.advance (c.rest.take n)⟩

@[simp] theorem rest_drop (c : Cursor) (n : Nat) : (c.drop n).rest = c.rest.drop n := rfl

/-- Moves over the characters at the head that satisfy `p`. -/
def dropWhile (c : Cursor) (p : Char → Bool) : Cursor :=
  c.drop (c.rest.takeWhile p).length

def startsWith (c : Cursor) (p : Char → Bool) : Bool :=
  c.rest.head?.any p

def column (c : Cursor) : Nat :=
  c.mark.column

def complaint (c : Cursor) (context : String) (since : Mark) (problem : String) : Complaint :=
  ⟨problem, c.mark, some (context, since)⟩

end Cursor

/-! ## Characters -/

/-- A space or tab. -/
def isBlank (c : Char) : Bool :=
  c == ' ' || c == '\t'

def isBlankOrBreak (c : Char) : Bool :=
  isBlank c || isBreak c

/-- Whether a text is at its end, or goes on with a blank or a break. -/
def endsWord : List Char → Bool
  | [] => true
  | c :: _ => isBlankOrBreak c

/-- Letters and digits of words in directives, anchors and tags. -/
def isWordChar (c : Char) : Bool :=
  c.isAlphanum || c == '_' || c == '-'

/-- `---` or `...` as a word of its own, which separates documents at the start of a line. -/
def isDocumentMark : List Char → Bool
  | '-' :: '-' :: '-' :: rest => endsWord rest
  | '.' :: '.' :: '.' :: rest => endsWord rest
  | _ => false

/-- The length of the break at the head of a text, 0 if there is none. -/
def breakLength : List Char → Nat
  | '\r' :: '\n' :: _ => 2
  | c :: _ => if isBreak c then 1 else 0
  | [] => 0

/-- The breaks in a text as they count in a scalar: as line feeds, but for the line and paragraph
separators. -/
def breaksIn : List Char → List Char
  | '\r' :: '\n' :: rest => '\n' :: breaksIn rest
  | c :: rest =>
    if c == '\u2028' || c == '\u2029' then c :: breaksIn rest
    else if isBreak c then '\n' :: breaksIn rest
    else breaksIn rest
  | [] => []

/-- What a run of blanks and breaks inside a scalar stands for. Blanks on one line stay; a single
break is a space, and of several the first is dropped. -/
def folded (run : List Char) : List Char :=
  match breaksIn run with
  | [] => run
  | '\n' :: [] => [' ']
  | '\n' :: more => more
  | breaks => breaks

end Reveal.Yaml
