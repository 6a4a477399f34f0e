import Reveal.Prose.Tag
import Reveal.Text.Blank
/-!
# Inline rules

Five rules turn marks inside a text into html elements: struck-out, bold and italic text, links and
images. Each rule replaces every stretch it matches, from left to right and without overlap.
-/
namespace Reveal.Prose

/-- A stretch at the head of a text: how many characters it takes and what is written for it. -/
structure Match where
  length : Nat
  output : List Char
  deriving DecidableEq, Repr

structure Rule where
  name : String
  /-- The match at the head of a text, if there is one. -/
  matchAt : List Char → Option Match

namespace Rule

/-- Replaces the matches of a rule and keeps what lies between them. -/
def apply (rule : Rule) : List Char → List Char
  | [] => []
  | c :: rest =>
    match rule.matchAt (c :: rest) with
    | some m => m.output ++ apply rule (rest.drop (m.length - 1))
    | none => c :: apply rule rest
termination_by s => s.length
decreasing_by all_goals simp; try omega

/-! ## Emphasis -/

/-- `mark` written `width` times, a body without that mark, and the marks again. -/
def emphasisAt (mark : Char) (width : Nat) (start stop s : List Char) : Option Match :=
  let fence := List.replicate width mark
  if fence.isPrefixOf s then
    let inner := s.drop width
    let body := inner.takeWhile (· != mark)
    if !body.isEmpty && fence.isPrefixOf (inner.dropWhile (· != mark)) then
      some ⟨2 * width + body.length, start ++ body ++ stop⟩
    else none
  else none

def strikethrough : Rule where
  name := "strikethrough"
  matchAt := emphasisAt '~' 2 Tag.delStart Tag.delStop

def bold : Rule where
  name := "bold"
  matchAt := emphasisAt '*' 2 Tag.strongStart Tag.strongStop

def italic : Rule where
  name := "italic"
  matchAt := emphasisAt '*' 1 Tag.emStart Tag.emStop

/-! ## Links and images -/

/-- The length of the `http://` or `https://` at the head of a text, 0 if there is none. -/
def schemeLength : List Char → Nat
  | 'h' :: 't' :: 't' :: 'p' :: 's' :: ':' :: '/' :: '/' :: _ => 8
  | 'h' :: 't' :: 't' :: 'p' :: ':' :: '/' :: '/' :: _ => 7
  | _ => 0

/-- The caption of a link: what stands between the blanks behind the address and the first closing
parenthesis. If nothing does, the last of at least two blanks is the caption. -/
def captionOf (gap caption : List Char) : Option (List Char) :=
  if caption.isEmpty then (if 2 ≤ gap.length then some (gap.drop (gap.length - 1)) else none)
  else some caption

/-- The html of a link. -/
def linkHtml (url caption : List Char) : List Char :=
  Tag.linkStart ++ url ++ Tag.linkMiddle ++ caption ++ Tag.linkStop

/-- The html of an image. -/
def imageHtml (url : List Char) : List Char :=
  Tag.imageStart ++ url ++ Tag.imageStop

/-- An address, which runs to the first blank, and a caption in front of a closing parenthesis. -/
def linkBodyAt (address : List Char) : Option Match :=
  let url := address.takeWhile (!Text.isBlank ·)
  let behind := address.dropWhile (!Text.isBlank ·)
  let gap := behind.takeWhile Text.isBlank
  let text := (behind.dropWhile Text.isBlank).takeWhile (· != ')')
  let rest := (behind.dropWhile Text.isBlank).dropWhile (· != ')')
  if schemeLength address != 0 && schemeLength address < url.length && !rest.isEmpty then
    (captionOf gap text).map fun caption =>
      ⟨url.length + gap.length + text.length + 1, linkHtml url caption⟩
  else none

/-- An address, which runs to the first closing parenthesis. -/
def imageBodyAt (address : List Char) : Option Match :=
  let url := address.takeWhile (· != ')')
  let rest := address.dropWhile (· != ')')
  if schemeLength address != 0 && schemeLength address < url.length && !rest.isEmpty then
    some ⟨url.length + 1, imageHtml url⟩
  else none

/-- `opening`, blanks, and what `bodyAt` matches. -/
def callAt (opening : List Char) (bodyAt : List Char → Option Match) (s : List Char) :
    Option Match :=
  if opening.isPrefixOf s then
    let inner := s.drop opening.length
    (bodyAt (inner.dropWhile Text.isBlank)).map fun m =>
      { m with length := opening.length + (inner.takeWhile Text.isBlank).length + m.length }
  else none

/-- `(link: address caption)`. -/
def linkAt : List Char → Option Match :=
  callAt ['(', 'l', 'i', 'n', 'k', ':'] linkBodyAt

def link : Rule where
  name := "link"
  matchAt := linkAt

/-- `(image: address)`. -/
def imageAt : List Char → Option Match :=
  callAt ['(', 'i', 'm', 'a', 'g', 'e', ':'] imageBodyAt

def image : Rule where
  name := "image"
  matchAt := imageAt

/-- The rules in the order in which they are applied. -/
def all : List Rule :=
  [strikethrough, bold, italic, link, image]

end Rule

end Reveal.Prose
