import Reveal.Number.Shortest
import Reveal.Text.Quoted
import Reveal.Yaml.Document
/-!
# Reading content as what is expected

Content is read as a truth value, a text, or the key of a field. What does not fit is described in
the message, by what it stands for.
-/
namespace Reveal.Yaml

/-! ## What content stands for -/

def Scalar.describe : Scalar → String
  | null => "unit value"
  | bool b => "boolean `" ++ toString b ++ "`"
  | int n =>
    let power (bits : Nat) : Int := Int.ofNat (Nat.pow 2 bits)
    let width := if power 64 ≤ n then " as u128" else if n < -power 63 then " as i128" else ""
    "integer `" ++ toString n ++ "`" ++ width
  | float x => "floating point `" ++ Number.floatText x ++ "`"
  | text s => "string " ++ Text.quoted s

/-- What a scalar stands for. Some tags ask for a kind, which the text may fail to be. -/
def meaning (tag : Option Tag) (text : String) (style : ScalarStyle) : Except String Scalar :=
  let wanted (found : Option Scalar) (what : String) : Except String Scalar :=
    match found with
    | some s => .ok s
    | none => .error ("invalid value: string " ++ Text.quoted text ++ ", expected " ++ what)
  let untagged := if style = .plain then Scalar.ofPlain text else .text text
  match tag with
  | none => .ok untagged
  | some tag =>
    if tag = .core "bool" then wanted ((Scalar.bool? text).map .bool) "a boolean"
    else if tag = .core "int" then wanted ((Scalar.int? text.toList).map .int) "an integer"
    else if tag = .core "float" then wanted ((Scalar.float? text.toList).map .float) "a float"
    else if tag = .core "null" then
      wanted (if Scalar.isNull text then some .null else none) "null"
    else if tag.isLocal then .ok untagged
    else .ok (.text text)

/-- Content that is not what is expected. -/
def mismatch (path : String) (expected : String) (content : Content) (mark : Mark) : Problem :=
  let invalid (what : String) :=
    Problem.unexpected path ("invalid type: " ++ what ++ ", expected " ++ expected) mark
  match content with
  | .scalar tag text style =>
    match meaning tag text style with
    | .ok scalar => invalid scalar.describe
    | .error message => .unexpected path message mark
  | .sequenceStart | .sequenceEnd => invalid "sequence"
  | .mappingStart | .mappingEnd => invalid "map"
  | .nothing | .alias _ => .endOfStream

/-! ## Reading nodes -/

/-- The node at a number, an alias replaced by what it stands for. -/
def Document.node? (d : Document) (number : Nat) : Except Problem (Content × Mark) :=
  match d.contents[number]? with
  | some (.alias anchor, mark) =>
    .ok (((d.anchors.place? anchor).bind (d.contents[·]?)).getD (.nothing, mark))
  | some found => .ok found
  | none => .error (d.problem.getD .endOfStream)

/-- A truth value has to be written plainly, or as a block with its tag. -/
def Document.bool (d : Document) (path : String) (number : Nat) : Except Problem Bool := do
  let (content, mark) ← d.node? number
  match content with
  | .scalar tag text style =>
    let direct := style = .plain ∨ (style = .literal ∧ tag = some (.core "bool"))
    match Scalar.bool? text with
    | some b => if direct then .ok b else .error (mismatch path "a boolean" content mark)
    | none => .error (mismatch path "a boolean" content mark)
  | _ => .error (mismatch path "a boolean" content mark)

/-- Any scalar is a text. -/
def Document.text (d : Document) (path expected : String) (number : Nat) :
    Except Problem (String × Mark) := do
  let (content, mark) ← d.node? number
  match content with
  | .scalar _ text _ => .ok (text, mark)
  | _ => .error (mismatch path expected content mark)

end Reveal.Yaml
