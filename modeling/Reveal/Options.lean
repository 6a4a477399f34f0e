import Reveal.Text.Blank
import Reveal.Yaml.Expect
/-!
# Compile options

Which format to write, and whether to add what helps in debugging. Options can be read from YAML,
where each field may be left out.
-/
namespace Reveal

structure Options where
  debug : Bool := false
  format : String := "html"
  deriving DecidableEq, Repr

namespace Options

/-- The default options with debugging on. -/
def debugging : Options := { debug := true }

/-- The fields found so far. -/
structure Fields where
  debug : Option Bool := none
  format : Option String := none

def Fields.options (f : Fields) : Options :=
  let defaults : Options := {}
  ⟨f.debug.getD defaults.debug, f.format.getD defaults.format⟩

open Yaml (Mark Problem)

/-- Reads the key at a number. Faults in the value are told with a path to it. -/
def readKey (d : Yaml.Document) (number : Nat) : Except Problem (String × Mark × String) := do
  let (key, mark) ← d.text "" "field identifier" number
  let path := match d.contents[number]? with
    | some (.alias _, _) => "?"
    | _ => key
  .ok (key, mark, path)

/-- Reads the fields of a mapping from a number on. A field may come once; `start` is where the
mapping starts. Each field takes two nodes, so there are less of them than nodes. -/
def readFields (d : Yaml.Document) (start : Mark) (number : Nat) (f : Fields) :
    Nat → Except Problem Fields
  | 0 => .error .endOfStream
  | rounds + 1 => do
    match ← d.node? number with
    | (.mappingEnd, _) => .ok f
    | _ =>
      let (key, mark, path) ← readKey d number
      let duplicate := Problem.unexpected "" ("duplicate field `" ++ key ++ "`") start
      match key with
      | "debug" =>
        if f.debug.isSome then .error duplicate
        else
          let debug ← d.bool path (number + 1)
          readFields d start (number + 2) { f with debug := some debug } rounds
      | "format" =>
        if f.format.isSome then .error duplicate
        else
          let (format, _) ← d.text path "a string" (number + 1)
          readFields d start (number + 2) { f with format := some format } rounds
      | _ =>
        .error (.unexpected "" ("unknown field `" ++ key ++ "`, expected `debug` or `format`") mark)

/-- Reads the options of a document. An empty document gives the defaults. -/
def ofDocument (d : Yaml.Document) : Except Problem Options := do
  let (content, mark) ← d.node? 0
  match content with
  | .mappingStart => (← readFields d mark 1 {} (d.contents.length + 1)).options |> pure
  | .nothing => .ok {}
  | .scalar _ "" .plain => .ok {}
  | _ => .error (Yaml.mismatch "" "struct CompileOptions" content mark)

/-- Reads options from a text that is not blank: one document and nothing behind it. -/
def readYaml (text : List Char) : Except Problem Options := do
  let (d, isOnly) := Yaml.Document.first text
  let options ← ofDocument d
  match d.problem with
  | some problem => .error problem
  | none => if isOnly then .ok options else .error .severalDocuments

/-- Reads options from YAML. A blank text gives the defaults. -/
def ofYaml (text : String) : Except Problem Options :=
  if text.toList.all Text.isBlank then .ok {} else readYaml text.toList

end Options

end Reveal
