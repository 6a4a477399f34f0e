import Reveal.Yaml.Cursor
/-!
# Reading plain scalars

A plain scalar ends at a colon that ends a word, at a comment, at a line that is indented less than
the scalar has to be, or, inside brackets, at the characters that structure them.
-/
namespace Reveal.Yaml

/-- Structures what stands in brackets. -/
def isFlowIndicator (c : Char) : Bool :=
  c == ',' || c == '[' || c == ']' || c == '\x7b' || c == '\x7d'

/-- The word at the head of a text: how many characters it takes, or, as an error, where in it a
colon stands that may not. -/
def plainWord (inFlow : Bool) (length : Nat) : List Char → Except Nat Nat
  | [] => .ok length
  | c :: rest =>
    if isBlankOrBreak c then .ok length
    else if inFlow && c == ':' && rest.head?.any (fun d => isFlowIndicator d || d == '?') then
      .error length
    else if (c == ':' && endsWord rest) || (inFlow && isFlowIndicator c) then .ok length
    else plainWord inFlow (length + 1) rest

/-- Whether a tab stands in the indentation of a line after the first. `fresh` tells whether a line
has begun, and `column` where the run goes on. Gives how far the tab is. -/
def tabInIndent (indent : Nat) (fresh : Bool) (column length : Nat) : List Char → Option Nat
  | [] => none
  | c :: rest =>
    if isBreak c then tabInIndent indent true 0 (length + 1) rest
    else if fresh && c == '\t' && column < indent then some length
    else tabInIndent indent fresh (column + 1) (length + 1) rest

/-- A plain scalar: its text, where it ends, and whether a line began behind it. -/
structure PlainScalar where
  text : List Char
  stop : Mark
  fresh : Bool
  cursor : Cursor

/-- Reads on from a word. `pending` is what the blanks before it stand for, if it belongs to the
scalar. -/
def readPlain (inFlow : Bool) (indent : Nat) (since : Mark) (done : PlainScalar)
    (pending : List Char) : Except Complaint PlainScalar :=
  let c := done.cursor
  let complain (c : Cursor) := c.complaint "while scanning a plain scalar" since
  if (c.column = 0 ∧ isDocumentMark c.rest) ∨ c.startsWith (· == '#') then .ok done
  else
    match plainWord inFlow 0 c.rest with
    | .error length => .error (complain (c.drop length) "found unexpected ':'")
    | .ok 0 => .ok done
    | .ok (length + 1) =>
      let behind := c.drop (length + 1)
      let text := done.text ++ pending ++ c.rest.take (length + 1)
      let run := behind.rest.takeWhile isBlankOrBreak
      let fresh := run.any isBreak
      let next := behind.drop run.length
      if run.isEmpty then .ok ⟨text, behind.mark, false, behind⟩
      else
        match tabInIndent indent false behind.column 0 run with
        | some length =>
          .error (complain (behind.drop length) "found a tab character that violates indentation")
        | none =>
          if !inFlow && next.column < indent then .ok ⟨text, behind.mark, fresh, next⟩
          else if next.rest.length < c.rest.length then
            readPlain inFlow indent since ⟨text, behind.mark, fresh, next⟩ (folded run)
          else .ok ⟨text, behind.mark, fresh, next⟩
termination_by done.cursor.rest.length
decreasing_by assumption

end Reveal.Yaml
