import Reveal.Chain
import Reveal.Position
/-!
# Events

A document is a flat sequence of events: paragraphs and fragments open and close, and links and text
stand between. Every event knows where it comes from and the chain of what is open around it. An
opening event's chain includes the identifier it opens; a closing event's does not.
-/
namespace Reveal

namespace Event

inductive Kind where
  | paragraphOpen (openedBy : Ident)
  | paragraphClose
  | fragmentOpen (openedBy : Ident)
  | fragmentClose
  /-- `caption` is html made from `source`; `descendants` are the identifiers the link reveals. -/
  | revealLink (opens : Ident) (caption source : String) (descendants : List Ident)
  /-- `html` is made from `source`. -/
  | text (html source : String)
  deriving DecidableEq, Repr

end Event

structure Event where
  position : Position
  chain : Chain
  kind : Event.Kind
  deriving Repr

namespace Event

/-- What a link opens. -/
def opens? (e : Event) : Option Ident :=
  match e.kind with
  | .revealLink opens _ _ _ => some opens
  | _ => none

/-- The identifier of a fragment that opens here. -/
def fragment? (e : Event) : Option Ident :=
  match e.kind with
  | .fragmentOpen openedBy => some openedBy
  | _ => none

/-- The identifier of a paragraph or fragment that opens here. -/
def openedBy? (e : Event) : Option Ident :=
  match e.kind with
  | .paragraphOpen openedBy | .fragmentOpen openedBy => some openedBy
  | _ => none

def isNestedUnder (e : Event) (id : Ident) : Bool :=
  e.chain.contains id

/-- Gives a link its descendants; other events stay as they are. -/
def withDescendants (e : Event) (descendants : List Ident) : Event :=
  match e.kind with
  | .revealLink opens caption source _ =>
    { e with kind := .revealLink opens caption source descendants }
  | _ => e

end Event

end Reveal
