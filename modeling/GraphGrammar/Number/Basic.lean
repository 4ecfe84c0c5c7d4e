/-!
Numbers are IEEE 754 doubles, kept as their 64 bits, so that every number that is stored comes back
with the bits it had. Every finite double is a whole multiple of 2 ^ -1074. All arithmetic is done
exactly in that unit and rounded once, to the nearest double and to the even one of two equally near.
-/

namespace GraphGrammar

/-- A double, given by its bits. Two numbers are equal in the logic when their bits are. -/
structure Number where
  bits : UInt64
deriving DecidableEq, Inhabited

namespace Number

/-- The number of fractions, and so of doubles with one exponent: 2 ^ 52. -/
def fractionCount : Nat := Nat.pow 2 52

/-- The bits of positive infinity, the least that no finite positive double has. -/
def infinityBits : Nat := 2047 * fractionCount

def infinity : Number := ⟨UInt64.ofNat infinityBits⟩

def nan : Number := ⟨0x7ff8000000000000⟩

def signBit (x : Number) : Bool := UInt64.size / 2 ≤ x.bits.toNat

def exponentField (x : Number) : Nat := x.bits.toNat / fractionCount % 2048

def fractionField (x : Number) : Nat := x.bits.toNat % fractionCount

def isFinite (x : Number) : Bool := x.exponentField < 2047

def isNaN (x : Number) : Bool := x.exponentField == 2047 && x.fractionField != 0

def isInfinite (x : Number) : Bool := x.exponentField == 2047 && x.fractionField == 0

/-- The absolute value in units of 2 ^ -1074. An infinity counts as the double that would follow the
largest finite one. -/
def magnitude (x : Number) : Nat :=
  if x.exponentField = 0 then x.fractionField
  else (fractionCount + x.fractionField) * Nat.pow 2 (x.exponentField - 1)

/-- The value in units of 2 ^ -1074. Both zeros have the value 0. -/
def scaled (x : Number) : Int :=
  if x.signBit then -(x.magnitude : Int) else x.magnitude

/-- The number of units in one: 2 ^ 1074. -/
def unitsPerOne : Nat := Nat.pow 2 1074

/-! ## Rounding -/

/-- The quotient rounded to the nearest whole number, a half to the even neighbour. -/
def roundHalfEven (num den : Nat) : Nat :=
  let quotient := num / den
  let twice := 2 * (num % den)
  if twice < den then quotient
  else if den < twice then quotient + 1
  else quotient + quotient % 2

/-- The nearest double to `num / den`, an infinity from half a step past the largest finite one.
The value is rounded to a multiple of `2 ^ shift` units, the distance of the doubles around it; the
bits of `steps * 2 ^ shift` units are `shift * 2 ^ 52 + steps`, also where `steps` is rounded up to
`2 ^ 53`. -/
def nearest (num den : Nat) : Number :=
  let units := num * unitsPerOne
  let shift := (units / den).log2 - 52
  let steps := roundHalfEven units (den * Nat.pow 2 shift)
  ⟨UInt64.ofNat (min (shift * fractionCount + steps) infinityBits)⟩

def withSign (negative : Bool) (x : Number) : Number :=
  if negative then ⟨x.bits ||| 0x8000000000000000⟩ else x

def ofNat (n : Nat) : Number := nearest n 1

def ofInt (n : Int) : Number := withSign (n < 0) (ofNat n.natAbs)

instance (n : Nat) : OfNat Number n := ⟨ofNat n⟩

/-! ## Comparison -/

/-- Numeric equality: the two zeros are equal, and no NaN equals anything. -/
protected def beq (x y : Number) : Bool :=
  !x.isNaN && !y.isNaN && x.scaled == y.scaled

instance : BEq Number := ⟨Number.beq⟩

instance : LT Number := ⟨fun x y => !x.isNaN && !y.isNaN && x.scaled < y.scaled⟩

instance : LE Number := ⟨fun x y => !x.isNaN && !y.isNaN && x.scaled ≤ y.scaled⟩

instance : DecidableLT Number := fun x y =>
  inferInstanceAs (Decidable ((!x.isNaN && !y.isNaN && decide (x.scaled < y.scaled)) = true))

instance : DecidableLE Number := fun x y =>
  inferInstanceAs (Decidable ((!x.isNaN && !y.isNaN && decide (x.scaled ≤ y.scaled)) = true))

/-! ## Arithmetic -/

def neg (x : Number) : Number := ⟨x.bits ^^^ 0x8000000000000000⟩

/-- The sum of two values. An exact zero is positive unless both terms are negative zeros. -/
def add (x y : Number) : Number :=
  if x.isNaN || y.isNaN then nan
  else if x.isInfinite then if y.isInfinite && x.signBit != y.signBit then nan else x
  else if y.isInfinite then y
  else
    let sum := x.scaled + y.scaled
    if sum = 0 then withSign (x.signBit && y.signBit) 0
    else withSign (sum < 0) (nearest sum.natAbs unitsPerOne)

def sub (x y : Number) : Number := add x y.neg

def mul (x y : Number) : Number :=
  let negative := x.signBit != y.signBit
  if x.isNaN || y.isNaN then nan
  else if x.isInfinite || y.isInfinite then
    if x.magnitude = 0 || y.magnitude = 0 then nan else withSign negative infinity
  else withSign negative (nearest (x.magnitude * y.magnitude) (unitsPerOne * unitsPerOne))

def div (x y : Number) : Number :=
  let negative := x.signBit != y.signBit
  if x.isNaN || y.isNaN || (x.isInfinite && y.isInfinite) then nan
  else if y.isInfinite then withSign negative 0
  else if x.isInfinite then withSign negative infinity
  else if y.magnitude = 0 then if x.magnitude = 0 then nan else withSign negative infinity
  else withSign negative (nearest x.magnitude y.magnitude)

instance : Neg Number := ⟨neg⟩
instance : Add Number := ⟨add⟩
instance : Sub Number := ⟨sub⟩
instance : Mul Number := ⟨mul⟩
instance : Div Number := ⟨div⟩

end Number

end GraphGrammar
