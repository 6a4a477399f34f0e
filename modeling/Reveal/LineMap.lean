import Reveal.Position
/-!
# From byte offsets to positions

A line map holds the lines of a source with the byte offset at which each starts. A lookup finds
the line by bisection and then counts the characters of that line up to the offset.
-/
namespace Reveal

/-- The bytes a text takes in UTF-8. -/
def byteLength (s : List Char) : Nat :=
  s.foldr (fun c n => c.utf8Size + n) 0

@[simp] theorem byteLength_nil : byteLength [] = 0 := rfl

@[simp] theorem byteLength_cons (c : Char) (s : List Char) :
    byteLength (c :: s) = c.utf8Size + byteLength s := rfl

@[simp] theorem byteLength_append (s t : List Char) : byteLength (s ++ t) = byteLength s + byteLength t := by
  induction s with
  | nil => simp
  | cons c s ih => simp [ih, Nat.add_assoc]

structure Line where
  /-- Byte offset of the line's first character. -/
  start : Nat
  /-- The line's characters, its line feed included. -/
  chars : List Char
  deriving DecidableEq, Repr

structure LineMap where
  lines : Array Line
  /-- Bytes in the whole source. -/
  size : Nat
  deriving Repr

namespace Line

/-- The lines of a text, the first of which starts at byte `start` and begins with `taken`, latest
character first. There is one more line than there are line feeds. -/
def split (start : Nat) (taken : List Char) : List Char → List Line
  | [] => [⟨start, taken.reverse⟩]
  | c :: rest =>
    if c = '\n' then
      ⟨start, (c :: taken).reverse⟩ :: split (start + byteLength (c :: taken)) [] rest
    else split start (c :: taken) rest

/-- How many characters fill exactly `bytes` bytes, if the count ends between two characters. -/
def charsWithin : List Char → Nat → Option Nat
  | _, 0 => some 0
  | [], _ + 1 => none
  | c :: rest, bytes =>
    if c.utf8Size ≤ bytes then (charsWithin rest (bytes - c.utf8Size)).map (· + 1) else none

/-- The column of a byte offset. Inside a character the column counts bytes. -/
def column (l : Line) (offset : Nat) : Nat :=
  1 + (charsWithin l.chars (offset - l.start)).getD (offset - l.start)

end Line

namespace LineMap

def ofChars (source : List Char) : LineMap :=
  ⟨(Line.split 0 [] source).toArray, byteLength source⟩

def ofString (source : String) : LineMap :=
  ofChars source.toList

/-- The last index in `[lo, hi)` whose line starts at or before the offset, given that line `lo`
does. -/
def bisect (lines : Array Line) (offset lo hi : Nat) : Nat :=
  if lo + 1 < hi then
    let mid := (lo + hi) / 2
    match lines[mid]? with
    | some l => if l.start ≤ offset then bisect lines offset mid hi else bisect lines offset lo mid
    | none => lo
  else lo
termination_by hi - lo

/-- The position of a byte offset. Offsets past the end count as the end. -/
def position (m : LineMap) (offset : Nat) : Position :=
  let offset := min offset m.size
  let i := bisect m.lines offset 0 m.lines.size
  ⟨i + 1, match m.lines[i]? with
    | some l => l.column offset
    | none => 1⟩

/-- The position after the last character. -/
def stop (m : LineMap) : Position :=
  m.position m.size

end LineMap

end Reveal
