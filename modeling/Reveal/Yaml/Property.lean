import Reveal.Yaml.Token
/-!
# Reading anchors, tags and directives
-/
namespace Reveal.Yaml

/-! ## Anchors -/

/-- What may stand behind the name of an anchor. -/
def endsAnchor (s : List Char) : Bool :=
  endsWord s || s.head?.any (['?', ':', ',', ']', '\x7d', '%', '@', '\x60'].contains ·)

/-- Reads `&name` or `*name` from the indicator on. -/
def readAnchor (context : String) (c : Cursor) : Except Complaint (String × Cursor) :=
  let name := (c.rest.drop 1).takeWhile isWordChar
  let behind := c.drop (name.length + 1)
  if name.isEmpty || !endsAnchor behind.rest then
    .error (behind.complaint context c.mark "did not find expected alphabetic or numeric character")
  else .ok (String.ofList name, behind)

/-! ## Tags -/

/-- What may stand in a tag besides letters, digits, hyphen and underscore. -/
def uriMarks : List Char :=
  [';', '/', '?', ':', '@', '&', '=', '+', '$', '.', '%', '!', '~', '*', '\'', '(', ')']

def isUriChar (verbatim : Bool) (c : Char) : Bool :=
  isWordChar c || uriMarks.contains c || (verbatim && [',', '[', ']'].contains c)

/-- How many octets follow the first one of a character, if one starts with it. -/
def octetsBehind? (first : Nat) : Option Nat :=
  if first < 0x80 then some 0
  else if 0xC0 ≤ first ∧ first < 0xE0 then some 1
  else if 0xE0 ≤ first ∧ first < 0xF0 then some 2
  else if 0xF0 ≤ first ∧ first < 0xF8 then some 3
  else none

/-- The octet written as `%xx` at the head of a text. -/
def escapedOctet? : List Char → Option Nat
  | '%' :: a :: b :: _ => Number.read? 16 [a, b]
  | _ => none

/-- Reads the octets behind the first one of a character. -/
def readOctets (complain : Cursor → String → Complaint) (c : Cursor) :
    Nat → Except Complaint (List UInt8)
  | 0 => .ok []
  | count + 1 =>
    match escapedOctet? c.rest with
    | some octet =>
      if octet / 64 = 2 then
        (readOctets complain (c.drop 3) count).map (UInt8.ofNat octet :: ·)
      else .error (complain c "found an incorrect trailing UTF-8 octet")
    | none => .error (complain c "did not find URI escaped octet")

/-- The escaped octets that a cursor stands at. The first one tells how many follow it; whether they
make a character does not matter. -/
def readUriEscape (context : String) (since : Mark) (c : Cursor) :
    Except Complaint (List UInt8) := do
  let complain (c : Cursor) := c.complaint context since
  match escapedOctet? c.rest with
  | some first =>
    match octetsBehind? first with
    | some count => (readOctets complain (c.drop 3) count).map (UInt8.ofNat first :: ·)
    | none => .error (complain c "found an incorrect leading UTF-8 octet")
  | none => .error (complain c "did not find URI escaped octet")

/-- Reads the octets of a tag. What is not escaped is ASCII. -/
def readUri (verbatim : Bool) (context : String) (since : Mark) (octets : List UInt8) (c : Cursor) :
    Except Complaint (List UInt8 × Cursor) :=
  match _h : c.rest with
  | [] => .ok (octets, c)
  | ch :: _ =>
    if ch = '%' then
      match readUriEscape context since c with
      | .ok more =>
        readUri verbatim context since (octets ++ more) (c.drop (3 * (more.length - 1) + 3))
      | .error complaint => .error complaint
    else if isUriChar verbatim ch then
      readUri verbatim context since (octets ++ [ch.toUInt8]) (c.drop 1)
    else .ok (octets, c)
termination_by c.rest.length
decreasing_by all_goals simp [_h]; try omega

/-- Reads the octets of a tag, of which there is at least one. `head` stands before them. -/
def readTagUri (verbatim : Bool) (context : String) (since : Mark) (head : List Char) (c : Cursor) :
    Except Complaint (Tag × Cursor) :=
  match readUri verbatim context since ((head.drop 1).map Char.toUInt8) c with
  | .ok (octets, behind) =>
    if head.isEmpty && octets.isEmpty then
      .error (behind.complaint context since "did not find expected tag URI")
    else .ok (.ofOctets octets, behind)
  | .error complaint => .error complaint

/-- The `!`, `!!` or `!name!` before a tag. Without the second mark the name belongs to the tag. -/
def tagHandle (s : List Char) : List Char :=
  let name := (s.drop 1).takeWhile isWordChar
  let behind := s.drop (name.length + 1)
  '!' :: name ++ (if behind.head? = some '!' then ['!'] else [])

/-- Reads a tag from its `!` on: its handle, and what follows the handle. -/
def readTag (inFlow : Bool) (c : Cursor) : Except Complaint ((String × Tag) × Cursor) := do
  let since := c.mark
  let read : Except Complaint ((String × Tag) × Cursor) :=
    if (c.rest.drop 1).head? = some '<' then do
      let (uri, behind) ← readTagUri true "while parsing a tag" since [] (c.drop 2)
      if behind.startsWith (· == '>') then .ok (("", uri), behind.drop 1)
      else .error (behind.complaint "while scanning a tag" since "did not find the expected '>'")
    else do
      let handle := tagHandle c.rest
      let behind := c.drop handle.length
      if 1 < handle.length && handle.getLast? == some '!' then do
        let (suffix, behind) ← readTagUri false "while parsing a tag" since [] behind
        .ok ((String.ofList handle, suffix), behind)
      else do
        let (suffix, behind) ← readTagUri false "while parsing a tag" since handle behind
        .ok ((if suffix.isEmpty then ("", .unspecific) else ("!", suffix)), behind)
  let (tag, behind) ← read
  if endsWord behind.rest || (inFlow && behind.startsWith (· == ',')) then .ok (tag, behind)
  else
    .error (behind.complaint "while scanning a tag" since
      "did not find expected whitespace or line break")

/-! ## Directives -/

/-- Reads one of the two numbers of a version. -/
def readVersionNumber (since : Mark) (c : Cursor) : Except Complaint (Nat × Cursor) :=
  let complain (c : Cursor) := c.complaint "while scanning a %YAML directive" since
  let digits := c.rest.takeWhile Char.isDigit
  if 9 < digits.length then .error (complain (c.drop 9) "found extremely long version number")
  else
    match Number.read? 10 digits with
    | some n => .ok (n, c.drop digits.length)
    | none => .error (complain c "did not find expected version number")

def readVersion (since : Mark) (c : Cursor) : Except Complaint (Token.Kind × Cursor) := do
  let (major, point) ← readVersionNumber since (c.dropWhile isBlank)
  if point.startsWith (· == '.') then
    let (minor, behind) ← readVersionNumber since (point.drop 1)
    .ok (.version major minor, behind)
  else
    .error (point.complaint "while scanning a %YAML directive" since
      "did not find expected digit or '.' character")

def readTagDirective (since : Mark) (c : Cursor) : Except Complaint (Token.Kind × Cursor) := do
  let complain (c : Cursor) := c.complaint "while scanning a %TAG directive" since
  let c := c.dropWhile isBlank
  if !c.startsWith (· == '!') then
    .error (c.complaint "while scanning a tag directive" since "did not find expected '!'")
  else
    let handle := tagHandle c.rest
    let behind := c.drop handle.length
    if handle.length != 1 && handle.getLast? != some '!' then
      .error (behind.complaint "while parsing a tag directive" since "did not find expected '!'")
    else if !behind.startsWith isBlank then
      .error (complain behind "did not find expected whitespace")
    else
      let start := behind.dropWhile isBlank
      let (uri, behind) ← readTagUri true "while parsing a %TAG directive" since [] start
      if endsWord behind.rest then .ok (.tagDirective (String.ofList handle) uri, behind)
      else .error (complain behind "did not find expected whitespace or line break")

/-- Reads a directive from its `%` to the end of its line. -/
def readDirective (c : Cursor) : Except Complaint (Token × Cursor) := do
  let since := c.mark
  let complain (c : Cursor) := c.complaint "while scanning a directive" since
  let name := (c.rest.drop 1).takeWhile isWordChar
  let behind := c.drop (name.length + 1)
  if name.isEmpty then .error (complain behind "could not find expected directive name")
  else if !endsWord behind.rest then
    .error (complain behind "found unexpected non-alphabetical character")
  else
    let (kind, stop) ←
      if name = ['Y', 'A', 'M', 'L'] then readVersion since behind
      else if name = ['T', 'A', 'G'] then readTagDirective since behind
      else .error (complain behind "found unknown directive name")
    let blanks := stop.dropWhile isBlank
    let ending := if blanks.startsWith (· == '#') then blanks.dropWhile (!isBreak ·) else blanks
    if ending.startsWith (!isBreak ·) then
      .error (complain ending "did not find expected comment or line break")
    else .ok (⟨kind, since, stop.mark⟩, ending.drop (breakLength ending.rest))

end Reveal.Yaml
