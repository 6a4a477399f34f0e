import Reveal.Ident.Basic
import Reveal.Text.Quoted
/-!
# Identifiers in log messages

Unlike the printed form, this one names the kind of the identifier.
-/
namespace Reveal.Ident

def describe : Ident → String
  | named name => "Named(" ++ Text.quoted name ++ ")"
  | numbered depth number =>
    "Scoped \x7b depth: " ++ toString depth ++ ", number: " ++ toString number ++ " \x7d"
  | auto ordinal => "Auto(" ++ toString ordinal ++ ")"
  | unreferenced ordinal => "Unreferenced(" ++ toString ordinal ++ ")"
  | anonymous => "Anonymous"

end Reveal.Ident
