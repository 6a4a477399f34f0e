import Reveal.Yaml.Scalar
/-!
# Writing text as a scalar

A text is written without quotes where that reads back as the same text, and as a literal block
where it has several lines. Where the style asked for cannot hold the text, the next one is taken:
plain, then single quotes, then double quotes, which can hold any text.
-/
namespace Reveal.Yaml

/-! ## Characters -/

/-- Ends a line. -/
def isBreak (c : Char) : Bool :=
  c == '\n' || c == '\r' || c == '\u0085' || c == '\u2028' || c == '\u2029'

/-- Separates words. -/
def isGap (c : Char) : Bool :=
  c == ' ' || c == '\t' || isBreak c || c == '\x00'

/-- Stands for itself in every style. -/
def isClear (c : Char) : Bool :=
  let n := c.toNat
  c == '\n' || (0x20 ≤ n && n ≤ 0x7E) || (0xA0 ≤ n && n ≤ 0xD7FF)
    || (0xE000 ≤ n && n ≤ 0xFFFD && n != 0xFEFF) || 0x10000 ≤ n

/-- Has a meaning of its own at the start of a scalar. -/
def isIndicator (c : Char) : Bool :=
  ['#', ',', '[', ']', '\x7b', '\x7d', '&',
   '*', '!', '|', '>', '\'', '"', '%', '@', '\x60'].contains c

inductive Style where
  | plain
  | single
  | double
  | literal
  deriving DecidableEq, Repr

namespace Style

/-! ## What a style can hold -/

/-- Two neighbours of which the first is `p` and the second `q`. -/
def hasPair (p q : Char → Bool) : List Char → Bool
  | a :: b :: rest => (p a && q b) || hasPair p q (b :: rest)
  | _ => false

/-- A colon with a gap or nothing behind it. -/
def hasLooseColon : List Char → Bool
  | [] => false
  | [c] => c == ':'
  | a :: b :: rest => (a == ':' && isGap b) || hasLooseColon (b :: rest)

/-- `?`, `:` or `-` that stands alone at the start. -/
def startsAsMark : List Char → Bool
  | [c] => c == '?' || c == ':' || c == '-'
  | a :: b :: _ => (a == '?' || a == ':' || a == '-') && isGap b
  | [] => false

def isEdge (c : Char) : Bool :=
  c == ' ' || isBreak c

/-- A text that reads back as itself without quotes, but for what it may stand for. -/
def plainHolds (s : List Char) : Bool :=
  !(s.head?.any isEdge || s.getLast?.any isEdge || s.any isBreak || s.any (!isClear ·)
    || ['-', '-', '-'].isPrefixOf s || ['.', '.', '.'].isPrefixOf s
    || s.head?.any isIndicator || startsAsMark s || hasLooseColon s || hasPair isGap (· == '#') s)

def singleHolds (s : List Char) : Bool :=
  !(hasPair isBreak (· == ' ') s || hasPair (· == ' ') isBreak s || s.any (!isClear ·))

def literalHolds (s : List Char) : Bool :=
  !(s.getLast? == some ' ' || hasPair (· == ' ') isBreak s || s.any (!isClear ·))

/-- The style in which a text is written. Digits behind a leading zero are quoted too, since not
every reader takes them for text. -/
def choose (s : String) : Style :=
  let cs := s.toList
  if cs.contains '\n' then (if literalHolds cs then literal else double)
  else if (Scalar.ofPlain s).isText && !Scalar.hasLeadingZero cs && plainHolds cs then plain
  else if singleHolds cs then single
  else double

/-! ## Writing -/

/-- Text whose lines after the first are indented. `fresh` tells whether a line has just begun. -/
def indented (indent : Nat) (fresh : Bool) : List Char → List Char
  | [] => []
  | c :: rest =>
    if isBreak c then c :: indented indent true rest
    else (if fresh then List.replicate indent ' ' else []) ++ c :: indented indent false rest

def singleQuoted (indent : Nat) (s : List Char) : String :=
  let body := s.flatMap fun c => if c == '\'' then ['\'', '\''] else [c]
  -- The closing quote is indented with the text.
  "'" ++ String.ofList (indented indent false (body ++ ['\'']))

def doubleQuotedChar (c : Char) : String :=
  let n := c.toNat
  match c with
  | '\x00' => "\\0"
  | '\x07' => "\\a"
  | '\x08' => "\\b"
  | '\t' => "\\t"
  | '\n' => "\\n"
  | '\x0B' => "\\v"
  | '\x0C' => "\\f"
  | '\r' => "\\r"
  | '\x1B' => "\\e"
  | '"' => "\\\""
  | '\\' => "\\\\"
  | '\u0085' => "\\N"
  | '\u2028' => "\\L"
  | '\u2029' => "\\P"
  | _ =>
    if isClear c then c.toString
    else if n ≤ 0xFF then "\\x" ++ Number.padded 16 2 n
    else if n ≤ 0xFFFF then "\\u" ++ Number.padded 16 4 n
    else "\\U" ++ Number.padded 16 8 n

def doubleQuoted (s : List Char) : String :=
  "\"" ++ String.join (s.map doubleQuotedChar) ++ "\""

/-- What a literal block's head says of the text: its indentation if the text itself starts with a
space or break, and how many breaks end it. -/
def literalHead (s : List Char) : String :=
  let hint := if s.head?.any isEdge then "2" else ""
  let chomp := match s.reverse with
    | a :: b :: _ => if !isBreak a then "-" else if isBreak b then "+" else ""
    | [a] => if isBreak a then "+" else "-"
    | [] => "-"
  "|" ++ hint ++ chomp

/-- A literal block. If the text does not end its last line, the block does. -/
def literalBlock (indent : Nat) (s : List Char) : String :=
  literalHead s ++ "\n" ++ String.ofList (indented indent true s)
    ++ (if s.getLast?.any isBreak then "" else "\n")

/-- The scalar of a text, with the end of its line. Further lines have the given indentation. -/
def write (indent : Nat) (s : String) : String :=
  match choose s with
  | plain => s ++ "\n"
  | single => singleQuoted indent s.toList ++ "\n"
  | double => doubleQuoted s.toList ++ "\n"
  | literal => literalBlock indent s.toList

end Style

end Reveal.Yaml
