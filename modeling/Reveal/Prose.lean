import Reveal.Prose.Escape
import Reveal.Prose.Rule
/-!
# Rendered text

Text and captions are escaped, and then every inline rule is applied, each to the output of the one
before.
-/
namespace Reveal.Prose

def markupChars (s : List Char) : List Char :=
  Rule.all.foldl (fun s rule => rule.apply s) s

/-- Applies the inline rules to a text as it is. -/
def markup (s : String) : String :=
  String.ofList (markupChars s.toList)

def renderChars (s : List Char) : List Char :=
  markupChars (escapeChars s)

/-- The html of a text. -/
def render (s : String) : String :=
  String.ofList (renderChars s.toList)

end Reveal.Prose
