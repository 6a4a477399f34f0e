import Std.Data.TreeMap
import Reveal.Event
import Reveal.Fault
import Reveal.Ident.Order
/-!
# Links inside what they open

A link that stands inside its own target would reveal itself. The chains of a document change by one
identifier at a time, so a count of how often each identifier is open is kept up to date by looking
at the ends of two neighbouring chains, and no chain is searched.

Chains that skip identifiers are followed in the same way. Leaving an identifier that was skipped
can then bring a count below zero, and whatever is not zero is taken to be open.
-/
namespace Reveal.Cascade

/-- How often each identifier is on the current chain. One that was never entered has no count. -/
abbrev OpenCount := Std.TreeMap Ident Int Ident.order

namespace OpenCount

def leave (count : OpenCount) (id : Option Ident) : OpenCount :=
  match id with
  | some id => count.modify id (· - 1)
  | none => count

def enter (count : OpenCount) (id : Option Ident) : OpenCount :=
  match id with
  | some id => count.insert id (count.getD id 0 + 1)
  | none => count

/-- Follows the step from one chain to the next. -/
def move (count : OpenCount) (previous current : Chain) : OpenCount :=
  if current.isSame previous then count
  else
    let count := if current.depth ≤ previous.depth then count.leave previous.innermost? else count
    if previous.depth ≤ current.depth then count.enter current.innermost? else count

end OpenCount

/-- The fault of an event that is a link to something open. -/
def recursiveLink? (count : OpenCount) (e : Event) : Option Fault :=
  match e.opens? with
  | some id => if count.getD id 0 ≠ 0 then some (.recursiveLink id.print e.position) else none
  | none => none

/-- The first link that stands inside its target. -/
def firstRecursive (count : OpenCount) (previous : Chain) : List Event → Option Fault
  | [] => none
  | e :: rest =>
    let count := count.move previous e.chain
    match recursiveLink? count e with
    | some fault => some fault
    | none => firstRecursive count e.chain rest

def recursiveFault? (events : List Event) : Option Fault :=
  firstRecursive ∅ .empty events

end Reveal.Cascade
