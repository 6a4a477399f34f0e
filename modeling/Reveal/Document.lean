import Reveal.Cascade
import Reveal.Resolve
import Reveal.Text.Utf8
/-!
# Documents

A document is what a source without faults stands for: its events, with every link's descendants,
and the tokens they came from.
-/
namespace Reveal

structure Document where
  events : List Event
  tokens : List Token
  deriving Repr

namespace Document

/-- The link that opens `id`. -/
def linkTo? (d : Document) (id : Ident) : Option Event :=
  d.events.find? fun e => e.opens? == some id

/-- What each link opens, in order. -/
def links (d : Document) : List Ident :=
  d.events.filterMap Event.opens?

/-- The identifier of each fragment, in order. -/
def fragments (d : Document) : List Ident :=
  d.events.filterMap Event.fragment?

end Document

/-- Reads a source. -/
def parse (source : String) : Except Fault Document := do
  let tokens := tokenize source
  let events ← resolve source tokens
  let events ← Cascade.attach events
  .ok ⟨events, tokens⟩

/-- The text of a source given in bytes. A fault lies behind the last character that could be
decoded. -/
def decode (bytes : List UInt8) : Except Fault String :=
  match Text.Utf8.decode bytes with
  | (cs, none) => .ok (String.ofList cs)
  | (cs, some fault) => .error (.invalidInput fault.message (LineMap.ofString (String.ofList cs)).stop)

/-- Reads a source given in bytes. -/
def parseBytes (bytes : List UInt8) : Except Fault Document := do
  parse (← decode bytes)

end Reveal
