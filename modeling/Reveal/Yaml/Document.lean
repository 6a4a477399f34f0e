import Reveal.Yaml.Event
/-!
# The first document of a YAML text

The content of a document is kept as far as it could be read, together with the fault that ended the
reading. A reader of the content so meets its own faults first where they come first.
-/
namespace Reveal.Yaml

/-- The parts of a document's content. -/
inductive Content where
  /-- The text holds no document. -/
  | nothing
  /-- Stands for the node whose anchor has the given number. -/
  | alias (anchor : Nat)
  | scalar (tag : Option Tag) (text : String) (style : ScalarStyle)
  | sequenceStart
  | sequenceEnd
  | mappingStart
  | mappingEnd
  deriving DecidableEq, Repr

/-- Why a text cannot be read. -/
inductive Problem where
  | malformed (complaint : Complaint)
  | unknownAnchor (mark : Mark)
  | endOfStream
  | severalDocuments
  /-- The content is not what a reader expects. A path leads to it. -/
  | unexpected (path : String) (text : String) (mark : Mark)

def Problem.message : Problem → String
  | malformed complaint => complaint.message
  | unknownAnchor mark => "unknown anchor" ++ mark.location
  | endOfStream => "EOF while parsing a value"
  | severalDocuments => "deserializing from YAML containing more than one document is not supported"
  | unexpected path text mark =>
    (if path.isEmpty then "" else path ++ ": ") ++ text ++ mark.location

/-- The anchors of a document. An anchor's number is how many names were known before it. So a name
that is given once more shares its new number with the next new name, and the number belongs to the
node that took it last. -/
structure Anchors where
  /-- The number of each name. -/
  numbers : List (String × Nat) := []
  /-- Where the node of a number stands in the contents, latest first. -/
  places : List (Nat × Nat) := []

namespace Anchors

/-- Gives a name to the node at a place. -/
def add (a : Anchors) (name : String) (place : Nat) : Anchors :=
  let number := a.numbers.length
  ⟨(name, number) :: a.numbers.filter (·.1 != name), (number, place) :: a.places⟩

def number? (a : Anchors) (name : String) : Option Nat :=
  a.numbers.lookup name

def place? (a : Anchors) (number : Nat) : Option Nat :=
  a.places.lookup number

end Anchors

structure Document where
  /-- Latest first while the document is read, then in order. -/
  contents : List (Content × Mark) := []
  /-- The fault behind the contents. -/
  problem : Option Problem := none
  anchors : Anchors := {}

namespace Document

/-- Adds content, and its anchor if it has one. -/
def add (d : Document) (anchor : Option String) (content : Content) (mark : Mark) : Document :=
  { d with
    contents := (content, mark) :: d.contents
    anchors := match anchor with
      | some name => d.anchors.add name d.contents.length
      | none => d.anchors }

/-- Adds an event's content. A document ends with its last event or with a fault. -/
def step (d : Document) (event : Event) (mark : Mark) : Document × Bool :=
  match event with
  | .streamStart | .documentStart => (d, false)
  | .streamEnd => ((if d.contents.isEmpty then d.add none .nothing mark else d), true)
  | .documentEnd => (d, true)
  | .alias name =>
    match d.anchors.number? name with
    | some anchor => (d.add none (.alias anchor) mark, false)
    | none => ({ d with problem := some (.unknownAnchor mark) }, true)
  | .scalar props text style => (d.add props.anchor (.scalar props.tag text style) mark, false)
  | .sequenceStart props => (d.add props.anchor .sequenceStart mark, false)
  | .sequenceEnd => (d.add none .sequenceEnd mark, false)
  | .mappingStart props => (d.add props.anchor .mappingStart mark, false)
  | .mappingEnd => (d.add none .mappingEnd mark, false)

/-- Reads events up to the end of the document. Gives the parser behind them. -/
def readFrom (d : Document) (p : Parser) : Nat → Document × Parser
  | 0 => (d, p)
  | rounds + 1 =>
    match Parser.next.run p with
    | .error complaint => ({ d with problem := some (.malformed complaint) }, p)
    | .ok ((event, mark), p) =>
      match d.step event mark with
      | (d, true) => (d, p)
      | (d, false) => d.readFrom p rounds

/-- Whether nothing follows. -/
def isLast (p : Parser) : Bool :=
  match Parser.next.run p with
  | .ok ((.streamEnd, _), _) => true
  | _ => false

/-- The first document of a text, and whether it is the only one. Each character gives a few events
at most. -/
def first (text : List Char) : Document × Bool :=
  let (d, p) := readFrom {} (.ofChars text) (16 * (text.length + 8))
  ({ d with contents := d.contents.reverse }, isLast p)

end Document

end Reveal.Yaml
