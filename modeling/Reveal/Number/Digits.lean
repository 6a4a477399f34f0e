/-!
# Numbers in a base

Runs of digits and the numbers they stand for.
-/
namespace Reveal.Number

/-- The value of a digit, letters of either case counting from ten. -/
def digitValue? (c : Char) : Option Nat :=
  if c.isDigit then some (c.toNat - '0'.toNat)
  else if 'a' ≤ c ∧ c ≤ 'z' then some (c.toNat - 'a'.toNat + 10)
  else if 'A' ≤ c ∧ c ≤ 'Z' then some (c.toNat - 'A'.toNat + 10)
  else none

def digitIn? (base : Nat) (c : Char) : Option Nat :=
  (digitValue? c).filter (· < base)

/-- Reads digits behind others of the given value. -/
def readMore? (base value : Nat) : List Char → Option Nat
  | [] => some value
  | c :: rest =>
    match digitIn? base c with
    | some d => readMore? base (base * value + d) rest
    | none => none

/-- The number a text stands for, if it consists of digits of the base only and has at least one. -/
def read? (base : Nat) (s : List Char) : Option Nat :=
  if s.isEmpty then none else readMore? base 0 s

/-- The number in the given base with capital letters, filled up with zeros to a width. -/
def padded (base width n : Nat) : String :=
  let digits := (Nat.toDigits base n).map Char.toUpper
  String.ofList (List.replicate (width - digits.length) '0' ++ digits)

end Reveal.Number
