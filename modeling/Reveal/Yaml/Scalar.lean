import Reveal.Number.Digits
/-!
# What a plain scalar stands for

A scalar without quotes can stand for null, a truth value, an integer or a floating point number;
otherwise it is text. A number with leading zeros is text too.
-/
namespace Reveal.Yaml

/-- What a scalar stands for. -/
inductive Scalar where
  | null
  | bool (value : Bool)
  | int (value : Int)
  | float (value : Float)
  | text (value : String)

namespace Scalar

def isNull (s : String) : Bool :=
  s == "null" || s == "Null" || s == "NULL" || s == "~"

def bool? (s : String) : Option Bool :=
  if s == "true" || s == "True" || s == "TRUE" then some true
  else if s == "false" || s == "False" || s == "FALSE" then some false
  else none

def isSign (c : Char) : Bool :=
  c == '+' || c == '-'

def dropSign : List Char → List Char
  | c :: rest => if isSign c then rest else c :: rest
  | [] => []

/-- A zero with more digits behind it, which is no number. -/
def hasLeadingZero (s : List Char) : Bool :=
  match dropSign s with
  | '0' :: c :: rest => (c :: rest).all Char.isDigit
  | _ => false

/-! ## Integers -/

/-- The digits of a number without sign, in the base that it names. -/
def magnitude? (s : List Char) : Option Nat :=
  match s with
  | '0' :: 'x' :: digits => Number.read? 16 digits
  | '0' :: 'o' :: digits => Number.read? 8 digits
  | '0' :: 'b' :: digits => Number.read? 2 digits
  | digits => Number.read? 10 digits

/-- Integers have at most 128 bits, without sign if they are not negative. -/
def int? (s : List Char) : Option Int :=
  if hasLeadingZero s then none
  else
    match s with
    | '-' :: rest => ((magnitude? rest).filter (· ≤ Nat.pow 2 127)).map fun n => -(n : Int)
    | '+' :: rest | rest => ((magnitude? rest).filter (· < Nat.pow 2 128)).map fun n => (n : Int)

/-! ## Floating point numbers -/

/-- A decimal: `digits * 10 ^ exponent`. -/
structure Decimal where
  negative : Bool
  digits : Nat
  exponent : Int
  deriving DecidableEq, Repr

/-- What follows the digits: nothing, or `e` and an integer. -/
def exponent? : List Char → Option Int
  | [] => some 0
  | c :: rest =>
    if c == 'e' || c == 'E' then
      match rest with
      | '-' :: digits => (Number.read? 10 digits).map fun n => -(n : Int)
      | '+' :: digits | digits => (Number.read? 10 digits).map fun n => (n : Int)
    else none

/-- Digits with a point among them or on either side, at least one digit, and an exponent. -/
def unsigned? (negative : Bool) (s : List Char) : Option Decimal := do
  let whole := s.takeWhile Char.isDigit
  let behind := s.dropWhile Char.isDigit
  let (fraction, tail) := match behind with
    | '.' :: rest => (rest.takeWhile Char.isDigit, rest.dropWhile Char.isDigit)
    | _ => ([], behind)
  let digits ← Number.read? 10 (whole ++ fraction)
  let exponent ← exponent? tail
  some ⟨negative, digits, exponent - fraction.length⟩

def decimal? : List Char → Option Decimal
  | '-' :: rest => unsigned? true rest
  | '+' :: rest | rest => unsigned? false rest

/-- The double nearest to a decimal. Decimals far beyond the range of doubles are told apart by
their size alone. -/
def Decimal.toFloat (d : Decimal) : Float :=
  let size : Int := (Nat.toDigits 10 d.digits).length + d.exponent
  let magnitude :=
    if d.digits = 0 ∨ size < -400 then 0.0
    else if 400 < size then 1.0 / 0.0
    else Float.ofScientific d.digits (d.exponent < 0) d.exponent.natAbs
  if d.negative then -magnitude else magnitude

def float? (s : List Char) : Option Float :=
  let text := String.ofList s
  if [".inf", ".Inf", ".INF", "+.inf", "+.Inf", "+.INF"].contains text then some (1.0 / 0.0)
  else if ["-.inf", "-.Inf", "-.INF"].contains text then some (-1.0 / 0.0)
  else if [".nan", ".NaN", ".NAN"].contains text then some (0.0 / 0.0)
  else ((decimal? s).map Decimal.toFloat).filter Float.isFinite

/-- What a text without quotes stands for. -/
def ofPlain (s : String) : Scalar :=
  let cs := s.toList
  if s.isEmpty || isNull s then null
  else if hasLeadingZero cs then text s
  else
    match bool? s, int? cs, float? cs with
    | some b, _, _ => bool b
    | none, some n, _ => int n
    | none, none, some x => float x
    | none, none, none => text s

def isText : Scalar → Bool
  | text _ => true
  | _ => false

end Scalar

end Reveal.Yaml
