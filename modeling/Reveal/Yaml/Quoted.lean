import Reveal.Yaml.Cursor
/-!
# Reading quoted scalars

In single quotes a quote is written twice, and nothing else is escaped. In double quotes a backslash
escapes characters and breaks.
-/
namespace Reveal.Yaml

/-- A character escaped by one letter. -/
def escaped? : Char → Option Char
  | '0' => some '\x00'
  | 'a' => some '\x07'
  | 'b' => some '\x08'
  | 't' => some '\t'
  | '\t' => some '\t'
  | 'n' => some '\n'
  | 'v' => some '\x0B'
  | 'f' => some '\x0C'
  | 'r' => some '\r'
  | 'e' => some '\x1B'
  | ' ' => some ' '
  | '"' => some '"'
  | '/' => some '/'
  | '\\' => some '\\'
  | 'N' => some '\u0085'
  | '_' => some '\u00a0'
  | 'L' => some '\u2028'
  | 'P' => some '\u2029'
  | _ => none

/-- How many hexadecimal digits follow the letter of a numeric escape, 0 if it is none. -/
def escapeWidth : Char → Nat
  | 'x' => 2
  | 'u' => 4
  | 'U' => 8
  | _ => 0

def isScalarValue (n : Nat) : Bool :=
  !(0xD800 ≤ n && n ≤ 0xDFFF) && n ≤ 0x10FFFF

/-- The escape that a cursor stands at, the backslash first: how many characters it takes and what
it stands for. -/
def readEscape (since : Mark) (c : Cursor) : Except Complaint (Nat × List Char) :=
  let complain (c : Cursor) := c.complaint "while parsing a quoted scalar" since
  match c.rest.drop 1 with
  | [] => .error (complain c "found unknown escape character")
  | letter :: behind =>
    let width := escapeWidth letter
    match escaped? letter with
    | some ch => .ok (2, [ch])
    | none =>
      if isBreak letter then
        let length := breakLength (letter :: behind)
        let run := ((letter :: behind).drop length).takeWhile isBlankOrBreak
        .ok (1 + length + run.length, breaksIn run)
      else if width = 0 then .error (complain c "found unknown escape character")
      else if behind.length < width then
        .error (complain (c.drop 2) "did not find expected hexadecimal number")
      else
        match Number.read? 16 (behind.take width) with
        | none => .error (complain (c.drop 2) "did not find expected hexadecimal number")
        | some n =>
          if isScalarValue n then .ok (2 + width, [Char.ofNat n])
          else .error (complain (c.drop 2) "found invalid Unicode character escape code")

/-- Reads on behind the opening quote. -/
def readQuoted (quote : Char) (since : Mark) (text : List Char) (c : Cursor) :
    Except Complaint (List Char × Cursor) :=
  let complain := c.complaint "while scanning a quoted scalar" since
  match _h : c.rest with
  | [] => .error (complain "found unexpected end of stream")
  | ch :: rest =>
    if c.column = 0 ∧ isDocumentMark c.rest then
      .error (complain "found unexpected document indicator")
    else if ch = quote then
      if quote = '\'' ∧ rest.head? = some '\'' then
        readQuoted quote since (text ++ ['\'']) (c.drop 2)
      else .ok (text, c.drop 1)
    else if quote = '"' ∧ ch = '\\' then
      match readEscape since c with
      | .ok (length, more) => readQuoted quote since (text ++ more) (c.drop (length - 1 + 1))
      | .error complaint => .error complaint
    else if isBlankOrBreak ch then
      let run := rest.takeWhile isBlankOrBreak
      readQuoted quote since (text ++ folded (ch :: run)) (c.drop (run.length + 1))
    else readQuoted quote since (text ++ [ch]) (c.drop 1)
termination_by c.rest.length
decreasing_by all_goals simp [_h]; try omega

end Reveal.Yaml
