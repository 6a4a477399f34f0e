import Std.Data.TreeMap
import Reveal.Event
import Reveal.Ident.Order
/-!
# What lies directly under an identifier

The index files identifiers under the innermost identifier of the event that brings them in. A
paragraph or fragment is filed under itself and under the next one out; a link files what it opens.
-/
namespace Reveal.Cascade

abbrev Index := Std.TreeMap Ident (List Ident) Ident.order

namespace Index

/-- The identifiers filed under `id`, in the order of the events. -/
def children (index : Index) (id : Ident) : List Ident :=
  index.getD id []

def file (index : Index) (parent child : Ident) : Index :=
  index.insert parent (index.children parent ++ [child])

end Index

/-- The pairs of parent and child that an event brings in. -/
def edges (e : Event) : List (Ident × Ident) :=
  match e.openedBy?, e.opens?, e.chain.outward with
  | some id, _, parent :: outer :: _ => [(parent, id), (outer, id)]
  | some id, _, [parent] => [(parent, id)]
  | none, some id, parent :: _ => [(parent, id)]
  | _, _, _ => []

/-- The index of a whole document. -/
def Index.ofEvents (events : List Event) : Index :=
  (events.flatMap edges).foldl (fun index edge => index.file edge.1 edge.2) ∅

end Reveal.Cascade
