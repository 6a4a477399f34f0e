import Reveal.Yaml.Cursor
/-!
# Characters that YAML does not allow

A text is read part by part while it is scanned. A part with a character that may not stand in YAML
is refused as a whole, and what stands in earlier parts is scanned before that is known.
-/
namespace Reveal.Yaml

/-- May stand in a YAML text. -/
def isAllowed (c : Char) : Bool :=
  let n := c.toNat
  n == 0x09 || n == 0x0A || n == 0x0D || (0x20 ≤ n && n ≤ 0x7E) || n == 0x85
    || (0xA0 ≤ n && n ≤ 0xD7FF) || (0xE000 ≤ n && n ≤ 0xFFFD) || 0x10000 ≤ n

/-- The first part of a text that is refused. -/
structure Refusal where
  /-- The byte offset of the part. -/
  start : Nat
  /-- The byte offset of the character for which it is refused. -/
  offset : Nat
  deriving DecidableEq, Repr

namespace Refusal

/-- How many bytes of a text are read at a time. -/
def partSize : Nat := 16384

/-- How far the scanner looks ahead. -/
def lookahead : Nat := 4

/-- Looks for the refusal in what follows an offset, where `start` is the offset of the current
part. A character that a part has no room for belongs to the next one. -/
def find? (start offset : Nat) : List Char → Option Refusal
  | [] => none
  | c :: rest =>
    let next := offset + c.utf8Size
    let start := if next ≤ start + partSize then start else offset
    if isAllowed c then find? start next rest else some ⟨start, offset⟩

def ofChars? (text : List Char) : Option Refusal :=
  find? 0 0 text

/-- Whether the scanner sees the part from a place. -/
def isSeenFrom (r : Refusal) (m : Mark) : Bool :=
  r.start < m.index + lookahead

/-- An offset of 0 is left out. -/
def complaint (r : Refusal) : Complaint :=
  let place := if r.offset = 0 then "" else " at position " ++ toString r.offset
  ⟨"control characters are not allowed" ++ place, .start, none⟩

end Refusal

end Reveal.Yaml
