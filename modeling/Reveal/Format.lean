import Reveal.Catalog
import Reveal.Dump.Json
import Reveal.Dump.Yaml
import Reveal.Html
/-!
# Output formats

A format turns a document into text. Formats are found by name in a catalog.
-/
namespace Reveal

namespace Format

inductive Fault where
  | notFound (name : String)
  /-- The format could not write the document. -/
  | failed (reason : String)
  deriving DecidableEq, Repr

def Fault.message : Fault → String
  | notFound name => "Format '" ++ name ++ "' not found"
  | failed reason => "Serialization error: " ++ reason

end Format

structure Format where
  name : String
  description : String := ""
  /-- Writes a document, with or without what helps in debugging. -/
  write : Bool → Document → Except Format.Fault String

namespace Format

def html : Format where
  name := "html"
  description := "Annotated html fragment for the russiandoll renderer"
  write debug d := .ok (Html.write debug d)

def json : Format where
  name := "ast-json"
  description := "Event sequence as pretty-printed JSON"
  write _ d := .ok (Dump.Json.write d)

def yaml : Format where
  name := "ast-yaml"
  description := "Event sequence as YAML"
  write _ d := .ok (Dump.Yaml.write d)

end Format

/-- The formats known under their names. -/
abbrev Formats := Catalog Format

namespace Formats

def empty : Formats := {}

def register (formats : Formats) (format : Format) : Formats :=
  Catalog.register formats format.name format

/-- The formats that a compiler comes with. -/
def builtin : List Format :=
  [.html, .json, .yaml]

/-- The formats that are always there unless replaced. -/
def standard : Formats :=
  builtin.foldl register empty

/-- Writes a document in the format of a name. -/
def write (formats : Formats) (name : String) (debug : Bool) (d : Document) :
    Except Format.Fault String :=
  match Catalog.get? formats name with
  | some format => format.write debug d
  | none => .error (.notFound name)

end Formats

end Reveal
