import GraphGrammar.Number.Basic

/-!
The shortest decimal of a number, and its text. A decimal is shortest when no coarser power of ten has
a multiple that reads back as the number. Of two such multiples the nearer one is taken, and the
style of the text says which one is taken of two that are equally near.
-/

namespace GraphGrammar

/-- The decimal `digits * 10 ^ exponent`. -/
structure Decimal where
  digits : Nat
  exponent : Int
deriving DecidableEq, Repr

namespace Decimal

def digitsOf (n : Nat) : List Char := Nat.toDigits 10 n

def toNumber (d : Decimal) : Number :=
  Number.nearest (d.digits * Nat.pow 10 d.exponent.toNat) (Nat.pow 10 (-d.exponent).toNat)

/-- The multiple of `10 ^ exponent` nearest to the magnitude `units`, among the two neighbours of the
magnitude that read back as it. `halfToEven` decides a tie, otherwise the upper neighbour wins. -/
def onGrid? (halfToEven : Bool) (units : Nat) (exponent : Int) : Option Decimal :=
  let num := units * Nat.pow 10 (-exponent).toNat
  let den := Number.unitsPerOne * Nat.pow 10 exponent.toNat
  let target := Number.nearest units Number.unitsPerOne
  let lower : Decimal := ⟨num / den, exponent⟩
  let upper : Decimal := ⟨num / den + 1, exponent⟩
  let twice := 2 * (num % den)
  let lowerIsNearer :=
    decide (twice < den) || (twice == den && halfToEven && lower.digits % 2 == 0)
  match decide (lower.toNumber = target), decide (upper.toNumber = target) with
  | true, true => some (if lowerIsNearer then lower else upper)
  | true, false => some lower
  | false, true => some upper
  | false, false => none

/-- The first decimal on a grid of `exponent`, `exponent - 1` and so on, `steps` grids in all. -/
def search (halfToEven : Bool) (units : Nat) : Nat → Int → Decimal
  | 0, exponent => ⟨0, exponent⟩
  | steps + 1, exponent =>
    match onGrid? halfToEven units exponent with
    | some d => d
    | none => search halfToEven units steps (exponent - 1)

/-- The shortest decimal of a positive magnitude. The search begins above the leading digit; every
double is on the grid of `10 ^ -1074`. -/
def shortest (halfToEven : Bool) (units : Nat) : Decimal :=
  let leading := (digitsOf (units / Number.unitsPerOne)).length
  search halfToEven units (leading + 1075) leading

def leadingExponent (d : Decimal) : Int := d.exponent + (digitsOf d.digits).length - 1

/-- The choices that a way of writing numbers makes. -/
structure Style where
  /-- The least exponent of a leading digit that is written without an exponent. -/
  lowestPositional : Int
  /-- The greatest such exponent. -/
  highestPositional : Int
  /-- Whether a tie between two shortest decimals goes to the even one, or to the upper one. -/
  halfToEven : Bool

/-- Digits with a point and at least one digit on each side of it. -/
def positional (d : Decimal) : List Char :=
  let digits := digitsOf d.digits
  if 0 ≤ d.exponent then
    digits ++ List.replicate d.exponent.toNat '0' ++ ['.', '0']
  else
    let places := (-d.exponent).toNat
    let padded := List.replicate (places + 1 - digits.length) '0' ++ digits
    let whole := padded.length - places
    padded.take whole ++ '.' :: padded.drop whole

/-- The leading digit, the other digits behind a point if there are any, and the exponent. -/
def scientific (d : Decimal) : List Char :=
  let exponent := d.leadingExponent
  let mark := 'e' :: (if exponent < 0 then ['-'] else []) ++ digitsOf exponent.natAbs
  match digitsOf d.digits with
  | leading :: next :: rest => leading :: '.' :: next :: rest ++ mark
  | digits => digits ++ mark

def render (style : Style) (d : Decimal) : List Char :=
  if style.lowestPositional ≤ d.leadingExponent && d.leadingExponent ≤ style.highestPositional then
    positional d
  else
    scientific d

end Decimal

/-- The text of a number. A zero keeps its sign. -/
def Number.render (style : Decimal.Style) (x : Number) : String :=
  let sign := if x.signBit then ['-'] else []
  if x.isNaN then "NaN"
  else if x.isInfinite then String.ofList (sign ++ "inf".toList)
  else if x.magnitude = 0 then String.ofList (sign ++ "0.0".toList)
  else String.ofList (sign ++ (Decimal.shortest style.halfToEven x.magnitude).render style)

end GraphGrammar
