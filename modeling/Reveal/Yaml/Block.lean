import Reveal.Yaml.Cursor
/-!
# Reading block scalars

A block scalar takes the lines that are indented deeper than what is around it. Its head tells
whether lines are kept or folded, how deep they are indented, and which breaks at its end count.
-/
namespace Reveal.Yaml

/-- Which breaks at the end of a block scalar count. -/
inductive Chomp where
  | strip
  | clip
  | keep
  deriving DecidableEq, Repr

structure BlockHead where
  chomp : Chomp := .clip
  /-- The indentation, if it is given. -/
  increment : Option Nat := none
  /-- How many characters the head takes. -/
  length : Nat := 0

def chomp? : List Char → Option Chomp
  | '+' :: _ => some .keep
  | '-' :: _ => some .strip
  | _ => none

def increment? : List Char → Option Nat
  | c :: _ => if c.isDigit then some (c.toNat - '0'.toNat) else none
  | [] => none

/-- The head of a block scalar, behind its indicator. The two parts may stand in either order. -/
def blockHead (s : List Char) : BlockHead :=
  match chomp? s, increment? s with
  | some chomp, _ =>
    match increment? (s.drop 1) with
    | some n => ⟨chomp, some n, 2⟩
    | none => ⟨chomp, none, 1⟩
  | none, some n =>
    match chomp? (s.drop 1) with
    | some chomp => ⟨chomp, some n, 2⟩
    | none => ⟨.clip, some n, 1⟩
  | none, none => {}

/-- What stands between two lines with text: the characters it takes, the breaks in it, the column
behind it, and the deepest indentation. -/
structure BlockGap where
  length : Nat
  breaks : List Char
  column : Nat
  deepest : Nat
  /-- Whether a tab stands where indentation is due. -/
  tab : Bool := false

/-- Reads indentation and empty lines. While the indentation of the block is not known, `indent` is
0 and any number of spaces may stand. -/
def blockGap (indent : Nat) (gap : BlockGap) : List Char → BlockGap
  | [] => { gap with deepest := max gap.deepest gap.column }
  | '\r' :: '\n' :: rest =>
    let deepest := max gap.deepest gap.column
    blockGap indent ⟨gap.length + 2, gap.breaks ++ ['\n'], 0, deepest, false⟩ rest
  | c :: rest =>
    let due := indent == 0 || gap.column < indent
    if c == ' ' && due then
      blockGap indent { gap with length := gap.length + 1, column := gap.column + 1 } rest
    else
      let gap := { gap with deepest := max gap.deepest gap.column }
      if c == '\t' && due then { gap with tab := true }
      else if isBreak c then
        let breaks := gap.breaks ++ breaksIn [c]
        blockGap indent { gap with length := gap.length + 1, breaks, column := 0 } rest
      else gap

/-- Where the lines of a block stand and how they are joined. -/
structure BlockLayout where
  literal : Bool
  indent : Nat
  since : Mark

/-- The lines read so far. -/
structure BlockLines where
  text : List Char
  /-- The break behind the last line. -/
  leading : List Char
  /-- The breaks of the empty lines behind it. -/
  trailing : List Char
  /-- Whether the last line starts with a blank, which keeps it from being folded. -/
  blank : Bool

/-- The text before a further line. -/
def BlockLines.joined (b : BlockLines) (literal blank : Bool) : List Char :=
  if !literal && b.leading == ['\n'] && !b.blank && !blank then
    b.text ++ (if b.trailing.isEmpty then [' '] else []) ++ b.trailing
  else b.text ++ b.leading ++ b.trailing

def BlockLines.chomped (b : BlockLines) : Chomp → List Char
  | .strip => b.text
  | .clip => b.text ++ b.leading
  | .keep => b.text ++ b.leading ++ b.trailing

def tabComplaint (c : Cursor) (since : Mark) : Complaint :=
  c.complaint "while scanning a block scalar" since
    "found a tab character where an indentation space is expected"

/-- Reads lines as long as they are indented deep enough. Gives the lines, where the last one ends,
and what follows. -/
def readLines (layout : BlockLayout) (lines : BlockLines) (stop : Mark) (c : Cursor) :
    Except Complaint (BlockLines × Mark × Cursor) :=
  match _h : c.rest with
  | [] => .ok (lines, stop, c)
  | ch :: rest =>
    if c.column = layout.indent then
      let blank := isBlank ch
      let tail := rest.takeWhile (!isBreak ·)
      let line := if isBreak ch then [] else ch :: tail
      let ending := (c.rest.drop line.length).take (breakLength (c.rest.drop line.length))
      let taken := max 1 (line.length + ending.length)
      let next := c.drop taken
      let gap := blockGap layout.indent ⟨0, [], next.column, 0, false⟩ next.rest
      if gap.tab then .error (tabComplaint (next.drop gap.length) layout.since)
      else
        let text := lines.joined layout.literal blank ++ line
        readLines layout ⟨text, breaksIn ending, gap.breaks, blank⟩
          (next.drop (gap.length - gap.column)).mark (c.drop (taken + gap.length))
    else .ok (lines, stop, c)
termination_by c.rest.length
decreasing_by simp [_h]; omega

/-- Reads a block scalar from its indicator on. `parent` is the indentation around it, less than 0
at the top. -/
def readBlock (parent : Int) (c : Cursor) : Except Complaint (List Char × Mark × Cursor) :=
  let since := c.mark
  let complain (c : Cursor) := c.complaint "while scanning a block scalar" since
  let literal := c.startsWith (· == '|')
  let head := blockHead (c.rest.drop 1)
  if head.increment = some 0 then
    .error (complain (c.drop (if (chomp? (c.rest.drop 1)).isSome then 2 else 1))
      "found an indentation indicator equal to 0")
  else
    let blanks := (c.drop (1 + head.length)).dropWhile isBlank
    let behind := if blanks.startsWith (· == '#') then blanks.dropWhile (!isBreak ·) else blanks
    if behind.startsWith (!isBreak ·) then
      .error (complain behind "did not find expected comment or line break")
    else
      let first := behind.drop (breakLength behind.rest)
      let given := match head.increment with
        | some n => (if 0 ≤ parent then parent.toNat + n else n)
        | none => 0
      let gap := blockGap given ⟨0, [], first.column, 0, false⟩ first.rest
      if gap.tab then .error (tabComplaint (first.drop gap.length) since)
      else
        let indent := if given = 0 then max (max gap.deepest (parent + 1).toNat) 1 else given
        let layout : BlockLayout := ⟨literal, indent, since⟩
        let stop := (first.drop (gap.length - gap.column)).mark
        match readLines layout ⟨[], [], gap.breaks, false⟩ stop (first.drop gap.length) with
        | .ok (lines, stop, c) => .ok (lines.chomped head.chomp, stop, c)
        | .error complaint => .error complaint

end Reveal.Yaml
