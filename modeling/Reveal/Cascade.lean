import Reveal.Cascade.Recursion
import Reveal.Cascade.Walk
/-!
# What a link reveals

Opening a link opens everything nested under its target, everything that the links in there open,
and so on. These are the link's descendants.
-/
namespace Reveal

namespace Cascade

/-- All that opens along with `target`, in the order of discovery. -/
def descendantsOf (events : List Event) (target : Ident) : List Ident :=
  walk (Index.ofEvents events) target

/-- Gives every link its descendants, whatever it had before. -/
def fill (events : List Event) : List Event :=
  let index := Index.ofEvents events
  events.map fun e =>
    match e.opens? with
    | some target => e.withDescendants (walk index target)
    | none => e

/-- Gives every link its descendants, unless a link stands inside its target. -/
def attach (events : List Event) : Except Fault (List Event) :=
  match recursiveFault? events with
  | some fault => .error fault
  | none => .ok (fill events)

end Cascade

end Reveal
