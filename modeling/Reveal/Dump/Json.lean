import Reveal.Dump.Tree
/-!
# JSON

A tree is written with one field or item a line, each level two spaces further in.
-/
namespace Reveal.Dump.Json

def lowHex (n : Nat) : List Char :=
  let digits := Nat.toDigits 16 n
  List.replicate (4 - digits.length) '0' ++ digits

def escapeChar : Char → List Char
  | '"' => ['\\', '"']
  | '\\' => ['\\', '\\']
  | '\x08' => ['\\', 'b']
  | '\x0C' => ['\\', 'f']
  | '\n' => ['\\', 'n']
  | '\r' => ['\\', 'r']
  | '\t' => ['\\', 't']
  | c => if c.toNat < 0x20 then '\\' :: 'u' :: lowHex c.toNat else [c]

def quote (s : String) : String :=
  "\"" ++ String.ofList (s.toList.flatMap escapeChar) ++ "\""

/-- The start of a line. -/
def newLine (indent : Nat) : String :=
  "\n" ++ String.ofList (List.replicate indent ' ')

mutual

def writeTree (indent : Nat) : Tree → String
  | .number n => toString n
  | .text s => quote s
  | .list [] => "[]"
  | .list (item :: rest) =>
    "[" ++ newLine (indent + 2) ++ writeTree (indent + 2) item ++ writeItems (indent + 2) rest
      ++ newLine indent ++ "]"
  | .record [] => "\x7b\x7d"
  | .record ((key, value) :: rest) =>
    "\x7b" ++ newLine (indent + 2) ++ quote key ++ ": " ++ writeTree (indent + 2) value
      ++ writeFields (indent + 2) rest ++ newLine indent ++ "\x7d"

/-- Items behind the first. -/
def writeItems (indent : Nat) : List Tree → String
  | [] => ""
  | item :: rest => "," ++ newLine indent ++ writeTree indent item ++ writeItems indent rest

/-- Fields behind the first. -/
def writeFields (indent : Nat) : List (String × Tree) → String
  | [] => ""
  | (key, value) :: rest =>
    "," ++ newLine indent ++ quote key ++ ": " ++ writeTree indent value ++ writeFields indent rest

end

/-- A document in JSON. -/
def write (d : Document) : String :=
  writeTree 0 (.ofDocument d)

end Reveal.Dump.Json
