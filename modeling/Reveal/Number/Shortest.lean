/-!
# Shortest decimals

A double stands for the reals that round to it. Of the decimals among them, the one with the fewest
digits is written, and of those the nearest; of two equally near, the greater.
-/
namespace Reveal.Number

/-- A finite double above zero: `mantissa * 2 ^ exponent`. -/
structure Dyadic where
  mantissa : Nat
  exponent : Int
  deriving DecidableEq, Repr

namespace Dyadic

/-- The double with the given bits, its sign left out. -/
def ofBits (bits : UInt64) : Dyadic :=
  let fraction : Nat := bits.toNat % Nat.pow 2 52
  let field : Nat := bits.toNat / Nat.pow 2 52 % Nat.pow 2 11
  if field = 0 then ⟨fraction, -1074⟩ else ⟨Nat.pow 2 52 + fraction, (field : Int) - 1075⟩

/-- A quotient of naturals, for scaling. -/
structure Ratio where
  num : Nat
  den : Nat

/-- A quotient times a power of the base. -/
def Ratio.scale (r : Ratio) (base : Nat) (e : Int) : Ratio :=
  if 0 ≤ e then ⟨r.num * Nat.pow base e.toNat, r.den⟩
  else ⟨r.num, r.den * Nat.pow base (-e).toNat⟩

/-- The reals that round to `d`, in units of a quarter of its last place: the lower end, the value
and the upper end. Below a power of two the doubles are twice as dense. -/
def interval (d : Dyadic) : Nat × Nat × Nat :=
  let below := if d.mantissa = Nat.pow 2 52 ∧ -1074 < d.exponent then 1 else 2
  (4 * d.mantissa - below, 4 * d.mantissa, 4 * d.mantissa + 2)

/-- Whether `n * 10 ^ place` rounds to `d`. The ends of the interval do if the mantissa is even. -/
def accepts (d : Dyadic) (place : Int) (n : Nat) : Bool :=
  let (low, _, high) := d.interval
  let unit := (Ratio.scale ⟨1, 1⟩ 2 (d.exponent - 2))
  let grid := (Ratio.scale ⟨n, 1⟩ 10 place)
  let lhs := grid.num * unit.den
  let lowEnd := low * unit.num * grid.den
  let highEnd := high * unit.num * grid.den
  if d.mantissa % 2 = 0 then lowEnd ≤ lhs && lhs ≤ highEnd else lowEnd < lhs && lhs < highEnd

/-- The value of `d` in units of `10 ^ place`: the whole part, and what is left over its divisor. -/
def onGrid (d : Dyadic) (place : Int) : Nat × Nat × Nat :=
  let r := (Ratio.scale ⟨d.mantissa, 1⟩ 2 d.exponent).scale 10 (-place)
  (r.num / r.den, r.num % r.den, r.den)

/-- The nearest number of units of `10 ^ place` that rounds to `d`, if one does. -/
def nearest? (d : Dyadic) (place : Int) : Option Nat :=
  let (whole, left, den) := d.onGrid place
  match d.accepts place whole, d.accepts place (whole + 1) with
  | true, true => some (if 2 * left < den then whole else whole + 1)
  | true, false => some whole
  | false, true => some (whole + 1)
  | false, false => none

/-- Tries ever finer grids, from `10 ^ place` down. -/
def search (d : Dyadic) (place : Int) : Nat → Nat × Int
  | 0 => ((d.onGrid place).1, place)
  | tries + 1 =>
    match d.nearest? place with
    | some n => (n, place)
    | none => search d (place - 1) tries

/-- The digits and the place of the last one. No double reaches the place 309, and none needs one
beyond 324 places behind the point. -/
def shortest (d : Dyadic) : Nat × Int :=
  d.search 309 640

end Dyadic

/-- Writes `n * 10 ^ place` without an exponent, with a point and at least one digit on either side
of it. -/
def positional (n : Nat) (place : Int) : String :=
  let digits := Nat.toDigits 10 n
  if 0 ≤ place then String.ofList (digits ++ List.replicate place.toNat '0') ++ ".0"
  else
    let behind := (-place).toNat
    let digits := List.replicate (behind + 1 - digits.length) '0' ++ digits
    let whole := digits.take (digits.length - behind)
    String.ofList whole ++ "." ++ String.ofList (digits.drop (digits.length - behind))

/-- The text of a double: the shortest decimal that reads back as it. -/
def floatText (x : Float) : String :=
  if x.isNaN then "NaN"
  else
    let sign := if x.toBits.toNat / Nat.pow 2 63 = 1 then "-" else ""
    if x.isInf then sign ++ "inf"
    else
      let d := Dyadic.ofBits x.toBits
      if d.mantissa = 0 then sign ++ "0.0"
      else
        let (n, place) := d.shortest
        sign ++ positional n place

end Reveal.Number
