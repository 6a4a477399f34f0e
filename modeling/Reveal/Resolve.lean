import Std.Data.TreeMap
import Reveal.Event
import Reveal.Fault
import Reveal.Ident.Order
import Reveal.Prose
import Reveal.Token.Cut
/-!
# Resolving tokens into events

One forward pass gives every paragraph, fragment and link its identifier. A link without target
takes a fresh number, and the next fragment without a name in the same scope takes the oldest number
still waiting there. The scope of a link is the fragment directly around it; all paragraphs share
the outermost scope.
-/
namespace Reveal

/-- What has been resolved so far. -/
structure Resolution where
  /-- The chain of what is open now. -/
  chain : Chain := .empty
  /-- The depth at which names made of digits count. Fragments and paragraphs raise it; only closing
  a fragment lowers it. -/
  level : Nat := 0
  /-- The numbers waiting for a fragment in the current scope, oldest first. -/
  waiting : List Nat := []
  /-- The numbers waiting in the scopes further out, one list per open fragment, innermost first. -/
  outer : List (List Nat) := []
  nextAuto : Nat := 0
  nextUnreferenced : Nat := 0
  /-- The targets of the links so far, with the positions of the links. -/
  targets : Std.TreeMap Ident Position Ident.order := ∅
  /-- The events so far, latest first. -/
  emitted : List Event := []

namespace Resolution

def emit (r : Resolution) (position : Position) (kind : Event.Kind) : Resolution :=
  { r with emitted := ⟨position, r.chain, kind⟩ :: r.emitted }

/-- Every source starts in a paragraph that has no name and is on no chain. -/
def start : Resolution :=
  emit {} .start (.paragraphOpen .anonymous)

/-- How many fragments are open. -/
def openFragments (r : Resolution) : Nat :=
  r.outer.length

def paragraph (r : Resolution) (position : Position) (name : Option String) :
    Except Fault Resolution :=
  if r.openFragments = 0 then
    let id := match name with
      | some name => Ident.named name
      | none => .anonymous
    let closed := { r with chain := r.chain.parent }.emit position .paragraphClose
    let opened := { closed with chain := closed.chain.push id, level := closed.level + 1 }
    .ok (opened.emit position (.paragraphOpen id))
  else .error (.paragraphInFragment position)

/-- The identifier of a fragment, and the resolution after taking it. -/
def fragmentIdent (r : Resolution) (name : Option String) : Ident × Resolution :=
  match name, r.waiting with
  | some name, _ => (.ofName name r.level, r)
  | none, number :: waiting => (.auto number, { r with waiting })
  | none, [] =>
    (.unreferenced r.nextUnreferenced, { r with nextUnreferenced := r.nextUnreferenced + 1 })

def fragmentOpen (r : Resolution) (position : Position) (name : Option String) : Resolution :=
  let (id, r) := r.fragmentIdent name
  let opened := { r with
    chain := r.chain.push id
    level := r.level + 1
    waiting := []
    outer := r.waiting :: r.outer }
  opened.emit position (.fragmentOpen id)

def fragmentClose (r : Resolution) (position : Position) : Except Fault Resolution :=
  match r.outer with
  | waiting :: outer =>
    let closed := { r with chain := r.chain.parent, level := r.level - 1, waiting, outer }
    .ok (closed.emit position .fragmentClose)
  | [] => .error (.unmatchedClose position)

/-- What a link opens, and the resolution after taking it. -/
def linkIdent (r : Resolution) (position : Position) (target : Option String) :
    Except Fault (Ident × Resolution) :=
  match target with
  | some name =>
    let id := Ident.ofName name r.level
    match r.targets[id]? with
    | some first => .error (.duplicateTarget id.print first position)
    | none => .ok (id, { r with targets := r.targets.insert id position })
  | none =>
    .ok (.auto r.nextAuto,
      { r with nextAuto := r.nextAuto + 1, waiting := r.waiting ++ [r.nextAuto] })

def revealLink (r : Resolution) (position : Position) (caption : String) (target : Option String) :
    Except Fault Resolution := do
  let (id, r) ← r.linkIdent position target
  .ok (r.emit position (.revealLink id (Prose.render caption) caption []))

/-- Resolves one token. -/
def step (r : Resolution) (position : Position) (t : Token) : Except Fault Resolution :=
  match t.kind with
  | .paragraph name => r.paragraph position name
  | .fragmentOpen name => .ok (r.fragmentOpen position name)
  | .fragmentClose => r.fragmentClose position
  | .revealLink caption target => r.revealLink position caption target
  | .text => .ok (r.emit position (.text (Prose.render t.text) t.text))

/-- Resolves tokens until one is refused. Gives what was resolved up to there. -/
def run (lines : LineMap) (r : Resolution) : List Token → Resolution × Option Fault
  | [] => (r, none)
  | t :: rest =>
    match r.step (lines.position t.start) t with
    | .ok r => run lines r rest
    | .error fault => (r, some fault)

/-- Closes the last paragraph at the end of the source. -/
def finish (r : Resolution) (stop : Position) : Except Fault Resolution :=
  if r.openFragments = 0 then
    .ok ({ r with chain := r.chain.parent }.emit stop .paragraphClose)
  else .error (.unbalanced r.openFragments stop)

/-- The events in the order of the source. -/
def events (r : Resolution) : List Event :=
  r.emitted.reverse

end Resolution

/-- The events of a source's tokens. Links have no descendants yet. -/
def resolve (source : String) (tokens : List Token) : Except Fault (List Event) :=
  let lines := LineMap.ofString source
  match Resolution.start.run lines tokens with
  | (r, none) => (r.finish lines.stop).map Resolution.events
  | (_, some fault) => .error fault

end Reveal
