import Reveal.Yaml.Scanner
/-!
# Events of a YAML text

The structure of a text as a sequence of events: nodes, and the starts and ends of sequences,
mappings and documents. The parser keeps a stack of what it has to go on with and gives one event at
a time, so that all events before a fault are known.
-/
namespace Reveal.Yaml

/-- The anchor and the tag of a node. -/
structure Properties where
  anchor : Option String := none
  tag : Option Tag := none
  deriving DecidableEq, Repr

inductive Event where
  | streamStart
  | streamEnd
  | documentStart
  | documentEnd
  | alias (name : String)
  | scalar (properties : Properties) (text : String) (style : ScalarStyle)
  | sequenceStart (properties : Properties)
  | sequenceEnd
  | mappingStart (properties : Properties)
  | mappingEnd
  deriving DecidableEq, Repr

namespace Parser

/-- What comes next. -/
inductive State where
  | streamStart
  | implicitDocument
  | documentStart
  | documentContent
  | documentEnd
  | blockNode
  | blockSequenceFirst
  | blockSequenceEntry
  | indentlessEntry
  | blockMappingFirst
  | blockMappingKey
  | blockMappingValue
  | flowSequenceFirst
  | flowSequenceEntry
  | flowPairKey
  | flowPairValue
  | flowPairEnd
  | flowMappingFirst
  | flowMappingKey
  | flowMappingValue
  | flowMappingEmpty
  | finished
  deriving DecidableEq, Repr

end Parser

structure Parser where
  scanner : Scanner
  state : Parser.State := .streamStart
  /-- What to go on with behind the current node, innermost first. -/
  pending : List Parser.State := []
  /-- Where the open collections started, innermost first. -/
  opened : List Mark := []
  /-- The handles of tags and what they stand for. -/
  handles : List (String × Tag) := []

abbrev Parse := StateT Parser (Except Complaint)

namespace Parser

def ofChars (s : List Char) : Parser :=
  { scanner := .ofChars s }

/-- An event and where it starts. -/
abbrev Found := Event × Mark

def peek : Parse Token := do
  let p ← get
  let (token, scanner) ← Scanner.peek.run p.scanner
  set { p with scanner }
  pure token

def skip : Parse Unit :=
  modify fun p => { p with scanner := (Scanner.skip.run p.scanner).toOption.elim p.scanner (·.2) }

def goTo (state : State) : Parse Unit :=
  modify fun p => { p with state }

/-- Goes on with `state` behind the node that comes next. -/
def later (state : State) : Parse Unit :=
  modify fun p => { p with pending := state :: p.pending }

/-- Goes on with what waits behind the current node. -/
def resume : Parse Unit :=
  modify fun p =>
    match p.pending with
    | state :: pending => { p with state, pending }
    | [] => { p with state := .finished }

def opening (mark : Mark) : Parse Unit :=
  modify fun p => { p with opened := mark :: p.opened }

def closing : Parse Unit :=
  modify fun p => { p with opened := p.opened.drop 1 }

def complain {α : Type} (problem : String) (mark : Mark) : Parse α :=
  throw ⟨problem, mark, none⟩

/-- Complains about something inside the innermost collection. -/
def complainIn {α : Type} (context problem : String) (mark : Mark) : Parse α := do
  throw ⟨problem, mark, (← get).opened.head?.map (context, ·)⟩

/-- A node that is not written. -/
def emptyScalar (mark : Mark) : Parse Found :=
  pure (.scalar {} "" .plain, mark)

/-! ## Nodes -/

/-- The handles that need no directive. -/
def defaultHandles : List (String × Tag) :=
  [("!", .unspecific), ("!!", .coreStart)]

/-- What a tag stands for. -/
def resolveTag (handle : String) (suffix : Tag) (start mark : Mark) : Parse Tag := do
  if handle.isEmpty then pure suffix
  else
    match (← get).handles.lookup handle with
    | some expansion => pure (expansion ++ suffix)
    | none => throw ⟨"found undefined tag handle", mark, some ("while parsing a node", start)⟩

/-- A tag as it is written, and where. -/
structure WrittenTag where
  handle : String
  suffix : Tag
  mark : Mark

def takeTag : Parse (Option WrittenTag) := do
  let token ← peek
  match token.kind with
  | .tag handle suffix =>
    skip
    pure (some ⟨handle, suffix, token.start⟩)
  | _ => pure none

def takeAnchor : Parse (Option String) := do
  match (← peek).kind with
  | .anchor name =>
    skip
    pure (some name)
  | _ => pure none

/-- The anchor and the tag before a node, in either order. What the tag stands for is looked up when
the token behind them has been scanned. -/
def properties (start : Mark) : Parse Properties := do
  let first ← takeAnchor
  let tag ← takeTag
  let anchor ← match first, tag with
    | none, some _ => takeAnchor
    | anchor, _ => pure anchor
  let _ ← peek
  match tag with
  | some t => pure ⟨anchor, some (← resolveTag t.handle t.suffix start t.mark)⟩
  | none => pure ⟨anchor, none⟩

/-- Parses a node. Blocks are allowed if `block` is set, and a sequence at the indentation of its
key if `indentless` is. -/
def node (block indentless : Bool) : Parse Found := do
  let first ← peek
  let start := first.start
  match first.kind with
  | .alias name =>
    resume
    skip
    pure (.alias name, start)
  | _ =>
    let props ← properties start
    let token ← peek
    match token.kind, block, indentless with
    | .blockEntry, _, true =>
      goTo .indentlessEntry
      pure (.sequenceStart props, start)
    | .scalar text style, _, _ =>
      resume
      skip
      let tag := if props.tag == some .unspecific then none else props.tag
      pure (.scalar { props with tag } text style, start)
    | .flowSequenceStart, _, _ =>
      goTo .flowSequenceFirst
      pure (.sequenceStart props, start)
    | .flowMappingStart, _, _ =>
      goTo .flowMappingFirst
      pure (.mappingStart props, start)
    | .blockSequenceStart, true, _ =>
      goTo .blockSequenceFirst
      pure (.sequenceStart props, start)
    | .blockMappingStart, true, _ =>
      goTo .blockMappingFirst
      pure (.mappingStart props, start)
    | _, _, _ =>
      if props.anchor.isSome || props.tag.isSome then
        resume
        pure (.scalar props "" .plain, start)
      else
        let context := if block then "while parsing a block node" else "while parsing a flow node"
        throw ⟨"did not find expected node content", token.start, some (context, start)⟩

/-! ## Documents -/

/-- Takes the directives before a document. -/
def directives (version : Bool) : Nat → Parse Unit
  | 0 => pure ()
  | rounds + 1 => do
    let token ← peek
    match token.kind with
    | .version major minor =>
      if version then complain "found duplicate %YAML directive" token.start
      else if major != 1 || (minor != 1 && minor != 2) then
        complain "found incompatible YAML document" token.start
      else
        skip
        directives true rounds
    | .tagDirective handle start =>
      if ((← get).handles.lookup handle).isSome then
        complain "found duplicate %TAG directive" token.start
      else
        modify fun p => { p with handles := p.handles ++ [(handle, start)] }
        skip
        directives version rounds
    | _ => modify fun p => { p with handles := p.handles ++ defaultHandles }

/-- Every directive takes characters, so there are no more of them than characters. -/
def takeDirectives : Parse Unit := do
  directives false ((← get).scanner.cursor.rest.length + (← get).scanner.queue.length + 2)

def skipDocumentEnds : Nat → Parse Unit
  | 0 => pure ()
  | rounds + 1 => do
    match (← peek).kind with
    | .documentEnd =>
      skip
      skipDocumentEnds rounds
    | _ => pure ()

def explicitDocument (start : Mark) : Parse Found := do
  takeDirectives
  let token ← peek
  match token.kind with
  | .documentStart =>
    later .documentEnd
    goTo .documentContent
    skip
    pure (.documentStart, start)
  | _ => complain "did not find expected <document start>" token.start

def documentStart (implicit : Bool) : Parse Found := do
  if !implicit then
    skipDocumentEnds ((← get).scanner.cursor.rest.length + (← get).scanner.queue.length + 2)
  let token ← peek
  match token.kind, implicit with
  | .streamEnd, _ =>
    goTo .finished
    skip
    pure (.streamEnd, token.start)
  | .version _ _, _ | .tagDirective _ _, _ | .documentStart, _ | _, false =>
    explicitDocument token.start
  | _, true =>
    takeDirectives
    later .documentEnd
    goTo .blockNode
    pure (.documentStart, token.start)

def documentContent : Parse Found := do
  let token ← peek
  match token.kind with
  | .version _ _ | .tagDirective _ _ | .documentStart | .documentEnd | .streamEnd =>
    resume
    emptyScalar token.start
  | _ => node true false

def documentEnd : Parse Found := do
  let token ← peek
  if token.kind == .documentEnd then skip
  modify fun p => { p with handles := [], state := .documentStart }
  pure (.documentEnd, token.start)

/-! ## Block collections -/

/-- Remembers where a collection starts and passes its first token. -/
def openCollection : Parse Unit := do
  let token ← peek
  opening token.start
  skip

/-- Ends a collection at its last token. -/
def closeCollection (event : Event) (mark : Mark) : Parse Found := do
  resume
  closing
  skip
  pure (event, mark)

def blockSequenceEntry : Parse Found := do
  let token ← peek
  match token.kind with
  | .blockEntry =>
    skip
    match (← peek).kind with
    | .blockEntry | .blockEnd =>
      goTo .blockSequenceEntry
      emptyScalar token.stop
    | _ =>
      later .blockSequenceEntry
      node true false
  | .blockEnd => closeCollection .sequenceEnd token.start
  | _ =>
    complainIn "while parsing a block collection" "did not find expected '-' indicator" token.start

def indentlessEntry : Parse Found := do
  let token ← peek
  match token.kind with
  | .blockEntry =>
    skip
    match (← peek).kind with
    | .blockEntry | .key | .value | .blockEnd =>
      goTo .indentlessEntry
      emptyScalar token.stop
    | _ =>
      later .indentlessEntry
      node true false
  | _ =>
    resume
    pure (.sequenceEnd, token.start)

def blockMappingKey : Parse Found := do
  let token ← peek
  match token.kind with
  | .key =>
    skip
    match (← peek).kind with
    | .key | .value | .blockEnd =>
      goTo .blockMappingValue
      emptyScalar token.stop
    | _ =>
      later .blockMappingValue
      node true true
  | .blockEnd => closeCollection .mappingEnd token.start
  | _ => complainIn "while parsing a block mapping" "did not find expected key" token.start

def blockMappingValue : Parse Found := do
  let token ← peek
  match token.kind with
  | .value =>
    skip
    match (← peek).kind with
    | .key | .value | .blockEnd =>
      goTo .blockMappingKey
      emptyScalar token.stop
    | _ =>
      later .blockMappingKey
      node true true
  | _ =>
    goTo .blockMappingKey
    emptyScalar token.start

/-! ## Flow collections -/

def flowSequenceItem : Parse Found := do
  let token ← peek
  match token.kind with
  | .key =>
    goTo .flowPairKey
    skip
    pure (.mappingStart {}, token.start)
  | .flowSequenceEnd => closeCollection .sequenceEnd token.start
  | _ =>
    later .flowSequenceEntry
    node false false

def flowSequenceEntry : Parse Found := do
  let token ← peek
  match token.kind with
  | .flowSequenceEnd => closeCollection .sequenceEnd token.start
  | .flowEntry =>
    skip
    flowSequenceItem
  | _ => complainIn "while parsing a flow sequence" "did not find expected ',' or ']'" token.start

def flowPairKey : Parse Found := do
  let token ← peek
  match token.kind with
  | .value | .flowEntry | .flowSequenceEnd =>
    skip
    goTo .flowPairValue
    emptyScalar token.stop
  | _ =>
    later .flowPairValue
    node false false

def flowPairValue : Parse Found := do
  let token ← peek
  match token.kind with
  | .value =>
    skip
    let token ← peek
    match token.kind with
    | .flowEntry | .flowSequenceEnd =>
      goTo .flowPairEnd
      emptyScalar token.start
    | _ =>
      later .flowPairEnd
      node false false
  | _ =>
    goTo .flowPairEnd
    emptyScalar token.start

def flowPairEnd : Parse Found := do
  let token ← peek
  goTo .flowSequenceEntry
  pure (.mappingEnd, token.start)

def flowMappingItem : Parse Found := do
  let token ← peek
  match token.kind with
  | .key =>
    skip
    let token ← peek
    match token.kind with
    | .value | .flowEntry | .flowMappingEnd =>
      goTo .flowMappingValue
      emptyScalar token.start
    | _ =>
      later .flowMappingValue
      node false false
  | .flowMappingEnd => closeCollection .mappingEnd token.start
  | _ =>
    later .flowMappingEmpty
    node false false

def flowMappingKey : Parse Found := do
  let token ← peek
  match token.kind with
  | .flowMappingEnd => closeCollection .mappingEnd token.start
  | .flowEntry =>
    skip
    flowMappingItem
  | _ => complainIn "while parsing a flow mapping" "did not find expected ',' or '\x7d'" token.start

def flowMappingValue : Parse Found := do
  let token ← peek
  match token.kind with
  | .value =>
    skip
    let token ← peek
    match token.kind with
    | .flowEntry | .flowMappingEnd =>
      goTo .flowMappingKey
      emptyScalar token.start
    | _ =>
      later .flowMappingKey
      node false false
  | _ =>
    goTo .flowMappingKey
    emptyScalar token.start

def flowMappingEmpty : Parse Found := do
  let token ← peek
  goTo .flowMappingKey
  emptyScalar token.start

/-! ## The next event -/

def streamStart : Parse Found := do
  let token ← peek
  skip
  goTo .implicitDocument
  pure (.streamStart, token.start)

/-- The next event. Behind the end of the stream it is the end of the stream again. -/
def next : Parse Found := do
  match (← get).state with
  | .streamStart => streamStart
  | .implicitDocument => documentStart true
  | .documentStart => documentStart false
  | .documentContent => documentContent
  | .documentEnd => documentEnd
  | .blockNode => node true false
  | .blockSequenceFirst =>
    openCollection
    blockSequenceEntry
  | .blockSequenceEntry => blockSequenceEntry
  | .indentlessEntry => indentlessEntry
  | .blockMappingFirst =>
    openCollection
    blockMappingKey
  | .blockMappingKey => blockMappingKey
  | .blockMappingValue => blockMappingValue
  | .flowSequenceFirst =>
    openCollection
    flowSequenceItem
  | .flowSequenceEntry => flowSequenceEntry
  | .flowPairKey => flowPairKey
  | .flowPairValue => flowPairValue
  | .flowPairEnd => flowPairEnd
  | .flowMappingFirst =>
    openCollection
    flowMappingItem
  | .flowMappingKey => flowMappingKey
  | .flowMappingValue => flowMappingValue
  | .flowMappingEmpty => flowMappingEmpty
  | .finished => pure (.streamEnd, (← get).scanner.cursor.mark)

end Parser

end Reveal.Yaml
