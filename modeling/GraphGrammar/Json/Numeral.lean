import GraphGrammar.Number.Decimal

/-!
Numbers in documents. A literal without point and exponent is a whole number as long as it fits 64 bits;
every other literal is a double. The double of a literal is found in two roundings: its digits, as many
as fit a word of 64 bits, are rounded to a double, and that is multiplied or divided by a power of ten.
-/

namespace GraphGrammar.Json

inductive Numeral where
  | natural (n : UInt64)
  /-- A negative whole number by its absolute value, at most 2 ^ 63. -/
  | negative (n : UInt64)
  | real (x : Number)
deriving DecidableEq

def Numeral.toNumber : Numeral → Number
  | natural n => .ofNat n.toNat
  | negative n => (Number.ofNat n.toNat).neg
  | real x => x

/-- The parts of a literal. The fraction is empty if there is no point. -/
structure Literal where
  isNegative : Bool
  whole : List Nat
  fraction : List Nat
  exponent : Option (Bool × List Nat)

namespace Literal

def isDigit (c : Char) : Bool := '0' ≤ c && c ≤ '9'

/-- The digits that a text begins with, and the rest. -/
def digits (cs : List Char) : List Nat × List Char :=
  ((cs.takeWhile isDigit).map fun c => c.toNat - '0'.toNat, cs.dropWhile isDigit)

def sign? : List Char → Option Bool × List Char
  | '-' :: cs => (some true, cs)
  | '+' :: cs => (some false, cs)
  | cs => (none, cs)

/-- The exponent that a text begins with, if it begins with the letter for one, and the rest. -/
def exponent? : List Char → Option (Option (Bool × List Nat) × List Char)
  | [] => some (none, [])
  | c :: cs =>
    if c = 'e' ∨ c = 'E' then
      let (sign, cs) := sign? cs
      match digits cs with
      | ([], _) => none
      | (ds, cs) => some (some (sign.getD false, ds), cs)
    else some (none, c :: cs)

/-- Reads the literal that a text begins with: an optional minus sign, digits without a leading zero,
optionally a point and digits, optionally an exponent. A part that is begun has to be finished. -/
def parse? (cs : List Char) : Option (Literal × List Char) := do
  let (isNegative, cs) := match cs with
    | '-' :: cs => (true, cs)
    | cs => (false, cs)
  let (whole, cs) := digits cs
  if whole = [] ∨ (whole.head? = some 0 ∧ whole.length ≠ 1) then none
  match cs with
  | '.' :: cs =>
    let (fraction, cs) := digits cs
    if fraction = [] then none
    let (exponent, cs) ← exponent? cs
    return (⟨isNegative, whole, fraction, exponent⟩, cs)
  | cs =>
    let (exponent, cs) ← exponent? cs
    return (⟨isNegative, whole, [], exponent⟩, cs)

/-- Takes digits as long as the number they write fits a word. The result is that number, how many
digits were taken, and whether all were. -/
def collect (value taken : Nat) : List Nat → Nat × Nat × Bool
  | [] => (value, taken, true)
  | d :: ds =>
    if value * 10 + d < UInt64.size then collect (value * 10 + d) (taken + 1) ds
    else (value, taken, false)

/-- The digits that count and the power of ten they are scaled by, before the exponent. Digits of the
whole part that do not fit raise the power; digits of the fraction that do not fit are dropped. -/
def significand (l : Literal) : Nat × Int :=
  let (value, taken, _) := collect 0 0 l.whole
  let excess : Nat := l.whole.length - taken
  let (value, places, _) := collect value 0 l.fraction
  (value, (excess : Int) - places)

def greatestPower : Nat := 308

def powerOfTen (n : Nat) : Number := Number.nearest (Nat.pow 10 n) 1

/-- Divides by a power of ten, in steps if it is not representable. -/
def scaleDown (x : Number) (power : Nat) : Number :=
  if power ≤ greatestPower then x / powerOfTen power
  else if x.magnitude = 0 then x
  else scaleDown (x / powerOfTen greatestPower) (power - greatestPower)
termination_by power
decreasing_by simp only [greatestPower] at *; omega

/-- Multiplies by a power of ten, unless the result would be infinite. -/
def scaleUp? (x : Number) (power : Nat) : Option Number :=
  if power ≤ greatestPower then
    let scaled := x * powerOfTen power
    if scaled.isInfinite then none else some scaled
  else if x.magnitude = 0 then some x
  else none

def scale? (x : Number) : Int → Option Number
  | .ofNat power => scaleUp? x power
  | .negSucc power => some (scaleDown x (power + 1))

/-- The greatest exponent that is counted. A literal with a greater one is zero or out of range. -/
def greatestExponent : Nat := 2147483647

/-- The double of a literal without its sign. -/
def magnitude? (l : Literal) : Option Number :=
  let (value, power) := l.significand
  match l.exponent with
  | none => scale? (.ofNat value) power
  | some (isNegative, ds) =>
    let exponent := ds.foldl (fun e d => e * 10 + d) 0
    if exponent ≤ greatestExponent then
      scale? (.ofNat value) (if isNegative then power - exponent else power + exponent)
    else if isNegative || value == 0 then some 0
    else none

def isWhole (l : Literal) : Bool := l.fraction.isEmpty && l.exponent.isNone

/-- The number of a literal, unless its double would be infinite. A negative zero and whole numbers
that do not fit are doubles. -/
def numeral? (l : Literal) : Option Numeral :=
  match l.isWhole, collect 0 0 l.whole, l.isNegative with
  | true, (value, _, true), false => some (.natural (UInt64.ofNat value))
  | true, (value, _, true), true =>
    if 0 < value && value ≤ UInt64.size / 2 then some (.negative (UInt64.ofNat value))
    else some (.real (Number.ofNat value).neg)
  | _, _, _ => (l.magnitude?).map fun x => .real (if l.isNegative then x.neg else x)

end Literal

end GraphGrammar.Json
