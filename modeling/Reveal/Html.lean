import Reveal.Document
/-!
# Html

A document is written as one `div` with a `p` for each paragraph, a `span` for each fragment and an
`a` for each link. Attributes carry the identifiers by which a renderer opens and closes them. On
request every element also tells its position, and every link its descendants.
-/
namespace Reveal.Html

/-- The version of the attributes below. -/
def version : String := "1.0.0"

/-- Attributes with the given names. Those without a value are left out. -/
def attributes (pairs : List (String × Option String)) : String :=
  String.join (pairs.map fun (name, value) =>
    match value with
    | some value => " " ++ name ++ "=\"" ++ value ++ "\""
    | none => "")

/-- The texts without those that occurred before. -/
def firstOccurrences (seen : List String) : List String → List String
  | [] => []
  | s :: rest =>
    if seen.contains s then firstOccurrences seen rest else s :: firstOccurrences (s :: seen) rest

/-- The printed identifiers with commas between them, each once. -/
def idList (ids : List Ident) : String :=
  String.intercalate "," (firstOccurrences [] (ids.map Ident.print))

def writeEvent (debug : Bool) (e : Event) : String :=
  let position := if debug then some e.position.attr else none
  match e.kind with
  | .paragraphOpen openedBy =>
    let id := if openedBy.isAnonymous then none else some openedBy.print
    "<p" ++ attributes [("data-opened-by", id), ("data-source-pos", position)] ++ ">"
  | .paragraphClose => "</p>"
  | .fragmentOpen openedBy =>
    "<span"
      ++ attributes [("data-opened-by", some openedBy.print), ("data-source-pos", position)] ++ ">"
  | .fragmentClose => "</span>"
  | .revealLink opens caption _ descendants =>
    let below := if debug then some (idList descendants) else none
    "<a href=\"#\""
      ++ attributes [("data-opens", some opens.print), ("data-source-pos", position),
        ("data-descendants", below)]
      ++ ">" ++ caption ++ "</a>"
  | .text html _ => html

/-- The html of a document. `debug` adds positions and descendants. -/
def write (debug : Bool) (d : Document) : String :=
  "<div" ++ attributes [("data-russiandoll", some version)] ++ ">" ++
    String.join (d.events.map (writeEvent debug)) ++ "</div>"

end Reveal.Html
