import Reveal.Prose.Escape
/-!
# Identifiers

An identifier ties a reveal link to what it opens. Links with a target and the fragments and
paragraphs of that name share one; links without a target are numbered, and the next fragment
without a name in the same scope takes the number.
-/
namespace Reveal

inductive Ident where
  | named (name : String)
  /-- A name made of digits counts only in fragments of one depth. -/
  | numbered (depth number : Nat)
  /-- Numbers a link without target. -/
  | auto (ordinal : Nat)
  /-- A fragment that no link opens. -/
  | unreferenced (ordinal : Nat)
  /-- The paragraphs without a name. -/
  | anonymous
  deriving DecidableEq, Repr

namespace Ident

/-- What stands before a name in print. -/
def namedMark : String := "_"

/-- How every unreferenced fragment is printed. -/
def unreferencedText : String := "nothing"

def print : Ident → String
  | named name => namedMark ++ Prose.escape name
  | numbered depth number => toString depth ++ "-" ++ toString number
  | auto ordinal => toString ordinal
  | unreferenced _ => unreferencedText
  | anonymous => ""

def isAnonymous : Ident → Bool
  | anonymous => true
  | _ => false

/-- Whether a source can spell the identifier. -/
def isAddressable : Ident → Bool
  | named _ | numbered _ _ => true
  | _ => false

/-- The value of a run of decimal digits. -/
def decimalValue (digits : List Char) : Nat :=
  digits.foldl (fun n c => 10 * n + (c.toNat - '0'.toNat)) 0

/-- The number a name stands for: decimal digits only, with a value below 2^64. -/
def numberOf? (name : String) : Option Nat :=
  let digits := name.toList
  if !digits.isEmpty && digits.all Char.isDigit && decimalValue digits < Nat.pow 2 64 then
    some (decimalValue digits)
  else none

/-- The identifier of a name that is spelled out at the given depth. -/
def ofName (name : String) (depth : Nat) : Ident :=
  match numberOf? name with
  | some number => numbered depth number
  | none => named name

end Ident

end Reveal
