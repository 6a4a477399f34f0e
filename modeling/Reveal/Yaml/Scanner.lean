import Reveal.Yaml.Block
import Reveal.Yaml.Plain
import Reveal.Yaml.Property
import Reveal.Yaml.Quoted
import Reveal.Yaml.Refusal
/-!
# Scanning tokens

Whether a scalar is the key of a mapping is known only when its colon comes. Until then the scanner
remembers where such a key would start, and scans ahead; when the colon comes, the tokens that start
the mapping and the key are put in front of the scalar. A token is handed out when nothing can be
put in front of it any more.
-/
namespace Reveal.Yaml

/-- A place where a key may have started. -/
structure PendingKey where
  /-- Whether only a key can stand there. -/
  required : Bool
  /-- The number of the token that would be the key. -/
  number : Nat
  mark : Mark
  deriving Repr

structure Scanner where
  cursor : Cursor
  /-- The tokens scanned and not yet handed out. -/
  queue : List Token := []
  /-- How many tokens were handed out. -/
  handed : Nat := 0
  started : Bool := false
  /-- The column of the block around the cursor, less than 0 outside all blocks. -/
  indent : Int := -1
  outerIndents : List Int := []
  /-- The key that may have started between the brackets around the cursor. -/
  key : Option PendingKey := none
  /-- The same for the brackets further out, innermost first. -/
  outerKeys : List (Option PendingKey) := []
  /-- Whether a key may start at the cursor. -/
  keyAllowed : Bool := false
  /-- The part of the text that cannot be read. -/
  refusal : Option Refusal := none

abbrev Scan := StateT Scanner (Except Complaint)

namespace Scanner

def ofChars (s : List Char) : Scanner :=
  { cursor := .ofChars s, refusal := Refusal.ofChars? s }

/-- Whether the cursor stands between brackets. -/
def inFlow (s : Scanner) : Bool :=
  !s.outerKeys.isEmpty

def enqueue (token : Token) : Scan Unit :=
  modify fun s => { s with queue := s.queue ++ [token] }

/-- Complains at the cursor. -/
def complain {α : Type} (problem : String) (context : Option (String × Mark) := none) : Scan α := do
  throw ⟨problem, (← get).cursor.mark, context⟩

/-- Scans a token of a fixed length. -/
def fixed (kind : Token.Kind) (length : Nat) : Scan Unit := do
  let c := (← get).cursor
  let behind := c.drop length
  modify fun s => { s with cursor := behind }
  enqueue ⟨kind, c.mark, behind.mark⟩

/-! ## Keys -/

/-- A key has to be on one line, and its colon at most 1024 bytes behind its start. -/
def isStale (here : Mark) (key : PendingKey) : Bool :=
  key.mark.line < here.line || key.mark.index + 1024 < here.index

/-- Gives up a key. It is a fault to give up one that was required. -/
def dropKey (key : Option PendingKey) : Scan Unit :=
  match key with
  | some key =>
    if key.required then
      complain "could not find expected ':'" (some ("while scanning a simple key", key.mark))
    else pure ()
  | none => pure ()

/-- Gives up the keys that the cursor is too far from. -/
def dropStaleKeys : Scan Unit := do
  let s ← get
  let stale (key : Option PendingKey) := key.filter (isStale s.cursor.mark)
  let fresh (key : Option PendingKey) := key.filter (!isStale s.cursor.mark ·)
  for key in s.outerKeys.reverse do
    dropKey (stale key)
  dropKey (stale s.key)
  modify fun s => { s with key := fresh s.key, outerKeys := s.outerKeys.map fresh }

def removeKey : Scan Unit := do
  dropKey (← get).key
  modify fun s => { s with key := none }

/-- Remembers that a key may start at the cursor. -/
def saveKey : Scan Unit := do
  let s ← get
  if s.keyAllowed then
    removeKey
    let required := !s.inFlow && s.indent == (s.cursor.column : Int)
    let key : PendingKey := ⟨required, s.handed + s.queue.length, s.cursor.mark⟩
    modify fun s => { s with key := some key }

/-! ## Indentation -/

/-- Starts a block at a column that is deeper than the block around it. Its token goes in front of
the token of the given number, or behind all. -/
def indentTo (column : Nat) (number : Option Nat) (kind : Token.Kind) (mark : Mark) : Scan Unit :=
  modify fun s =>
    if s.inFlow || (column : Int) ≤ s.indent then s
    else
      let token : Token := ⟨kind, mark, mark⟩
      let queue := match number with
        | some number => s.queue.insertIdx (number - s.handed) token
        | none => s.queue ++ [token]
      { s with queue, indent := column, outerIndents := s.indent :: s.outerIndents }

/-- Ends the blocks that are deeper than a column, from the innermost out. -/
def closeBlocks (column : Int) (mark : Mark) (indent : Int) : List Int → List Token × Int × List Int
  | [] => ([], indent, [])
  | outer :: rest =>
    if column < indent then
      let (ends, found) := closeBlocks column mark outer rest
      (⟨.blockEnd, mark, mark⟩ :: ends, found)
    else ([], indent, outer :: rest)

def unindentTo (column : Int) : Scan Unit :=
  modify fun s =>
    if s.inFlow then s
    else
      let (ends, indent, outerIndents) := closeBlocks column s.cursor.mark s.indent s.outerIndents
      { s with queue := s.queue ++ ends, indent, outerIndents }

/-! ## Structure -/

def fetchStreamStart : Scan Unit := do
  modify fun s => { s with started := true, keyAllowed := true }
  fixed .streamStart 0

/-- The end of the text counts as the start of a further line. -/
def fetchStreamEnd : Scan Unit := do
  modify fun s =>
    let mark := s.cursor.mark
    if mark.column = 0 then s
    else { s with cursor := ⟨s.cursor.rest, ⟨mark.index, mark.line + 1, 0⟩⟩ }
  unindentTo (-1)
  removeKey
  modify fun s => { s with keyAllowed := false }
  fixed .streamEnd 0

def fetchDirective : Scan Unit := do
  unindentTo (-1)
  removeKey
  modify fun s => { s with keyAllowed := false }
  let (token, cursor) ← readDirective (← get).cursor
  modify fun s => { s with cursor }
  enqueue token

def fetchDocumentMark (kind : Token.Kind) : Scan Unit := do
  unindentTo (-1)
  removeKey
  modify fun s => { s with keyAllowed := false }
  fixed kind 3

def fetchFlowStart (kind : Token.Kind) : Scan Unit := do
  saveKey
  modify fun s => { s with key := none, outerKeys := s.key :: s.outerKeys, keyAllowed := true }
  fixed kind 1

def fetchFlowEnd (kind : Token.Kind) : Scan Unit := do
  removeKey
  modify fun s =>
    match s.outerKeys with
    | key :: outerKeys => { s with key, outerKeys, keyAllowed := false }
    | [] => { s with keyAllowed := false }
  fixed kind 1

def fetchFlowEntry : Scan Unit := do
  removeKey
  modify fun s => { s with keyAllowed := true }
  fixed .flowEntry 1

/-- Outside brackets, starts a block at the cursor, where a key has to be allowed. -/
def startBlock (kind : Token.Kind) (problem : String) : Scan Unit := do
  let s ← get
  if !s.inFlow then
    if !s.keyAllowed then complain problem
    indentTo s.cursor.column none kind s.cursor.mark

def fetchBlockEntry : Scan Unit := do
  startBlock .blockSequenceStart "block sequence entries are not allowed in this context"
  removeKey
  modify fun s => { s with keyAllowed := true }
  fixed .blockEntry 1

def fetchKey : Scan Unit := do
  startBlock .blockMappingStart "mapping keys are not allowed in this context"
  removeKey
  modify fun s => { s with keyAllowed := !s.inFlow }
  fixed .key 1

/-- A colon makes what stands before it a key, if a key may have started there. -/
def fetchValue : Scan Unit := do
  let s ← get
  match s.key with
  | some key =>
    let token : Token := ⟨.key, key.mark, key.mark⟩
    set { s with queue := s.queue.insertIdx (key.number - s.handed) token }
    indentTo key.mark.column (some key.number) .blockMappingStart key.mark
    modify fun s => { s with key := none, keyAllowed := false }
  | none =>
    startBlock .blockMappingStart "mapping values are not allowed in this context"
    modify fun s => { s with keyAllowed := !s.inFlow }
  fixed .value 1

/-! ## Properties and scalars -/

def fetchAnchor (context : String) (kind : String → Token.Kind) : Scan Unit := do
  saveKey
  let c := (← get).cursor
  let (name, cursor) ← readAnchor context c
  modify fun s => { s with cursor, keyAllowed := false }
  enqueue ⟨kind name, c.mark, cursor.mark⟩

def fetchTag : Scan Unit := do
  saveKey
  let s ← get
  let ((handle, suffix), cursor) ← readTag s.inFlow s.cursor
  modify fun s => { s with cursor, keyAllowed := false }
  enqueue ⟨.tag handle suffix, s.cursor.mark, cursor.mark⟩

def fetchBlockScalar (style : ScalarStyle) : Scan Unit := do
  removeKey
  let s ← get
  let (text, stop, cursor) ← readBlock s.indent s.cursor
  modify fun s => { s with cursor, keyAllowed := true }
  enqueue ⟨.scalar (String.ofList text) style, s.cursor.mark, stop⟩

def fetchQuoted (quote : Char) : Scan Unit := do
  saveKey
  let c := (← get).cursor
  let (text, cursor) ← readQuoted quote c.mark [] (c.drop 1)
  modify fun s => { s with cursor, keyAllowed := false }
  enqueue ⟨.scalar (String.ofList text) .quoted, c.mark, cursor.mark⟩

/-- A key may start on the line behind a plain scalar. -/
def fetchPlain : Scan Unit := do
  saveKey
  let s ← get
  let c := s.cursor
  let scalar ← readPlain s.inFlow (s.indent + 1).toNat c.mark ⟨[], c.mark, false, c⟩ []
  modify fun s => { s with cursor := scalar.cursor, keyAllowed := scalar.fresh }
  enqueue ⟨.scalar (String.ofList scalar.text) .plain, c.mark, scalar.stop⟩

/-! ## The next token -/

/-- The cursor behind the blanks and the comment on a line. Tabs count as blanks unless they could
be taken for indentation. -/
def skipLineBlanks (tabs : Bool) (c : Cursor) : Cursor :=
  let c := if c.column = 0 && c.startsWith (· == '\uFEFF') then c.drop 1 else c
  let c := c.dropWhile fun ch => ch == ' ' || (tabs && ch == '\t')
  if c.startsWith (· == '#') then c.dropWhile (!isBreak ·) else c

/-- The cursor behind blanks, comments and breaks, and whether a key may start there. Outside
brackets one may at the start of a line. -/
def skipBlanks (inFlow keyAllowed : Bool) (c : Cursor) : Cursor × Bool :=
  let line := skipLineBlanks (inFlow || !keyAllowed) c
  let next := line.drop (breakLength line.rest)
  if breakLength line.rest ≠ 0 ∧ next.rest.length < c.rest.length then
    skipBlanks inFlow (keyAllowed || !inFlow) next
  else (line, keyAllowed)
termination_by c.rest.length
decreasing_by rename_i h; exact h.2

/-- Whether a plain scalar may start with the text. -/
def startsPlain (inFlow : Bool) : List Char → Bool
  | [] => false
  | c :: rest =>
    !(isBlankOrBreak c || isIndicator c || c == '-' || c == '?' || c == ':')
      || (c == '-' && !rest.head?.any isBlank)
      || (!inFlow && (c == '?' || c == ':') && !endsWord rest)

/-- Scans the next token of a text that can be read. -/
def fetchToken : Scan Unit := do
  if !(← get).started then fetchStreamStart
  else
    modify fun s =>
      let (cursor, keyAllowed) := skipBlanks s.inFlow s.keyAllowed s.cursor
      { s with cursor, keyAllowed }
    dropStaleKeys
    unindentTo (← get).cursor.column
    let s ← get
    let rest := s.cursor.rest
    let atMargin := s.cursor.column == 0
    match rest with
    | [] => fetchStreamEnd
    | c :: behind =>
      let word := endsWord behind
      if atMargin && c == '%' then fetchDirective
      else if atMargin && c == '-' && isDocumentMark rest then fetchDocumentMark .documentStart
      else if atMargin && c == '.' && isDocumentMark rest then fetchDocumentMark .documentEnd
      else if c == '[' then fetchFlowStart .flowSequenceStart
      else if c == '\x7b' then fetchFlowStart .flowMappingStart
      else if c == ']' then fetchFlowEnd .flowSequenceEnd
      else if c == '\x7d' then fetchFlowEnd .flowMappingEnd
      else if c == ',' then fetchFlowEntry
      else if c == '-' && word then fetchBlockEntry
      else if c == '?' && (s.inFlow || word) then fetchKey
      else if c == ':' && (s.inFlow || word) then fetchValue
      else if c == '*' then fetchAnchor "while scanning an alias" .alias
      else if c == '&' then fetchAnchor "while scanning an anchor" .anchor
      else if c == '!' then fetchTag
      else if c == '|' && !s.inFlow then fetchBlockScalar .literal
      else if c == '>' && !s.inFlow then fetchBlockScalar .folded
      else if c == '\'' || c == '"' then fetchQuoted c
      else if startsPlain s.inFlow rest then fetchPlain
      else
        complain "found character that cannot start any token"
          (some ("while scanning for the next token", s.cursor.mark))

/-- Scans the next token. Text that cannot be read is told of when the scanner gets there. -/
def fetchNext : Scan Unit := fun s =>
  match s.refusal with
  | none => fetchToken s
  | some refusal =>
    let scanned := fetchToken s
    let reached := match scanned with
      | .ok (_, s) => s.cursor.mark
      | .error complaint => complaint.mark
    if refusal.isSeenFrom reached then .error refusal.complaint else scanned

/-- Whether a token could still be put in front of the first one. -/
def isUncertain (s : Scanner) : Bool :=
  s.queue.isEmpty || (s.key :: s.outerKeys).any fun key => key.any (·.number == s.handed)

/-- Scans until the first token is certain. Every token but the last takes a character, so as many
rounds as there are characters left, and two for the ends of the text, are enough. -/
def fetchMore : Nat → Scan Unit
  | 0 => pure ()
  | rounds + 1 => do
    if !(← get).queue.isEmpty then dropStaleKeys
    if (← get).isUncertain then
      fetchNext
      fetchMore rounds

/-- The next token, which stays in the queue. -/
def peek : Scan Token := do
  fetchMore ((← get).cursor.rest.length + 3)
  match (← get).queue with
  | token :: _ => pure token
  | [] => complain "did not find expected token"

/-- Hands out the first token. -/
def skip : Scan Unit :=
  modify fun s => { s with queue := s.queue.drop 1, handed := s.handed + 1 }

end Scanner

end Reveal.Yaml
