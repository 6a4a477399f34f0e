import Reveal.Document
/-!
# Documents as data

A document as a tree of records, lists, texts and numbers. Identifiers appear as they are printed.
-/
namespace Reveal.Dump

inductive Tree where
  | number (n : Nat)
  | text (s : String)
  | list (items : List Tree)
  | record (fields : List (String × Tree))
  deriving Repr

namespace Tree

def ofPosition (p : Position) : Tree :=
  record [("line", number p.line), ("column", number p.column)]

def ofIdent (id : Ident) : Tree :=
  text id.print

def ofIdents (ids : List Ident) : Tree :=
  list (ids.map ofIdent)

/-- The name of an event's kind and the fields of its own. -/
def ofKind : Event.Kind → List (String × Tree)
  | .paragraphOpen openedBy => [("type", text "paragraph-open"), ("opened_by", ofIdent openedBy)]
  | .paragraphClose => [("type", text "paragraph-close")]
  | .fragmentOpen openedBy => [("type", text "fragment-open"), ("opened_by", ofIdent openedBy)]
  | .fragmentClose => [("type", text "fragment-close")]
  | .revealLink opens caption source descendants =>
    [("type", text "reveal-link"), ("opens", ofIdent opens), ("caption", text caption),
     ("original", text source), ("descendants", ofIdents descendants)]
  | .text html source => [("type", text "text"), ("html", text html), ("original", text source)]

def ofEvent (e : Event) : Tree :=
  record ([("position", ofPosition e.position), ("nesting", ofIdents e.chain.toList)]
    ++ ofKind e.kind)

def ofDocument (d : Document) : Tree :=
  record [("events", list (d.events.map ofEvent))]

end Tree

end Reveal.Dump
