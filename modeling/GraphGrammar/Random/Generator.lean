import GraphGrammar.Number.Basic

/-!
The source of random choices: xoroshiro128+ over two words of 64 bits, seeded by SplitMix64. Every
draw returns the generator that the next draw continues from, so equal seeds give equal choices.
-/

namespace GraphGrammar

structure Generator where
  first : UInt64
  second : UInt64
deriving DecidableEq, Inhabited

namespace Generator

/-- Turns a word to the left, `0 < n < 64`. -/
def rotateLeft (x n : UInt64) : UInt64 := (x <<< n) ||| (x >>> (64 - n))

/-- The odd constant nearest to 2 ^ 64 divided by the golden ratio. -/
def goldenGamma : UInt64 := 0x9e3779b97f4a7c15

/-- A generator with the given state. The all-zero state would draw zeros for ever, so another one
takes its place. -/
def ofWords (first second : UInt64) : Generator :=
  if first = 0 ∧ second = 0 then ⟨goldenGamma, 0⟩ else ⟨first, second⟩

/-- The finalizer of SplitMix64. -/
def mix (x : UInt64) : UInt64 :=
  let y := (x ^^^ (x >>> 30)) * 0xbf58476d1ce4e5b9
  let z := (y ^^^ (y >>> 27)) * 0x94d049bb133111eb
  z ^^^ (z >>> 31)

/-- The generator of a seed: the first two outputs of SplitMix64. -/
def ofSeed (seed : UInt64) : Generator :=
  ofWords (mix (seed + goldenGamma)) (mix (seed + goldenGamma + goldenGamma))

def advance (g : Generator) : Generator :=
  let mixed := g.second ^^^ g.first
  ⟨rotateLeft g.first 55 ^^^ mixed ^^^ (mixed <<< 14), rotateLeft mixed 36⟩

def word (g : Generator) : UInt64 × Generator := (g.first + g.second, g.advance)

/-- The number of different draws from the unit interval: 2 ^ 53. -/
def unitDraws : Nat := Nat.pow 2 53

/-- The upper 53 bits of a word, which is one of `unitDraws` numbers. -/
def fraction (g : Generator) : Nat × Generator :=
  ((g.word.1 >>> 11).toNat, g.word.2)

/-- A number of the half-open unit interval. -/
def unit (g : Generator) : Number × Generator :=
  (Number.nearest g.fraction.1 unitDraws, g.fraction.2)

def isPowerOfTwo (n : UInt64) : Bool := n &&& (n - 1) == 0

/-- The words below this bound fall evenly on `count` indexes. -/
def rejectionBound (count : UInt64) : UInt64 := 0xffffffffffffffff - 0xffffffffffffffff % count

/-- The first accepted word of at most `draws` draws, reduced to an index. -/
def indexWithin (count : UInt64) : Nat → Generator → Option (UInt64 × Generator)
  | 0, _ => none
  | draws + 1, g =>
    if g.word.1 < rejectionBound count then some (g.word.1 % count, g.word.2)
    else indexWithin count draws g.word.2

/-- The number of states of a generator: 2 ^ 128. A longer run of rejected draws would repeat itself
for ever. -/
def stateCount : Nat := UInt64.size * UInt64.size

/-- A uniform index below `count`, which is positive. A power of two masks one word, any other count
rejects the words that would favour the lower indexes. -/
def index (count : UInt64) (g : Generator) : UInt64 × Generator :=
  if isPowerOfTwo count then (g.word.1 &&& (count - 1), g.word.2)
  else (indexWithin count stateCount g).getD (0, g)

end Generator

end GraphGrammar
