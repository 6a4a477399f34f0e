import Reveal.Dump.Tree
import Reveal.Yaml.Style
/-!
# YAML

A tree is written in block style. Fields and items have a line of their own, and a list below a key
stands at the indentation of the key.
-/
namespace Reveal.Dump.Yaml

def spaces (n : Nat) : String :=
  String.ofList (List.replicate n ' ')

mutual

/-- A tree whose first line starts at column `indent`, to which the others are indented. -/
def writeTree (indent : Nat) : Tree → String
  | .number n => toString n ++ "\n"
  | .text s => Reveal.Yaml.Style.write indent s
  | .list [] => "[]\n"
  | .list (item :: rest) => "- " ++ writeTree (indent + 2) item ++ writeItems indent rest
  | .record [] => "\x7b\x7d\n"
  | .record ((key, value) :: rest) =>
    key ++ ":" ++ writeValue indent value ++ writeFields indent rest

/-- What stands behind the colon of a key at the given indentation. -/
def writeValue (indent : Nat) : Tree → String
  | .list (item :: rest) =>
    "\n" ++ spaces indent ++ "- " ++ writeTree (indent + 2) item ++ writeItems indent rest
  | .record ((key, value) :: rest) =>
    "\n" ++ spaces (indent + 2) ++ key ++ ":" ++ writeValue (indent + 2) value
      ++ writeFields (indent + 2) rest
  | .number n => " " ++ toString n ++ "\n"
  | .text s => " " ++ Reveal.Yaml.Style.write (indent + 2) s
  | .list [] => " []\n"
  | .record [] => " \x7b\x7d\n"

/-- Items behind the first. -/
def writeItems (indent : Nat) : List Tree → String
  | [] => ""
  | item :: rest => spaces indent ++ "- " ++ writeTree (indent + 2) item ++ writeItems indent rest

/-- Fields behind the first. -/
def writeFields (indent : Nat) : List (String × Tree) → String
  | [] => ""
  | (key, value) :: rest =>
    spaces indent ++ key ++ ":" ++ writeValue indent value ++ writeFields indent rest

end

/-- A document in YAML. -/
def write (d : Document) : String :=
  writeTree 0 (.ofDocument d)

end Reveal.Dump.Yaml
