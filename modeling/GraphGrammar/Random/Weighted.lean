import GraphGrammar.Random.Generator

/-!
Weighted choice. An item is drawn with the share that its weight has of the sum of all weights. A weight
counts if it is finite and positive, and a list in which none counts is drawn from uniformly. The walk
along the weights is written once for every kind of number, so that it can be run on doubles and
reasoned about on exact ones.
-/

namespace GraphGrammar

/-- The numbers that weights are measured in. -/
class Weight (W : Type) extends Add W, Sub W, Mul W, LE W, LT W where
  zero : W
  isFinite : W → Bool

instance : Weight Number where
  zero := 0
  isFinite := Number.isFinite

namespace Weight

variable {W : Type} [Weight W] [DecidableLE W] [DecidableLT W]

/-- Whether items of this weight can be drawn while others compete. -/
def counts (w : W) : Bool := isFinite w && decide (zero < w)

/-- The weight that an item enters the sum with. -/
def effective (w : W) : W := if counts w then w else zero

def total (weights : List W) : W := (weights.map effective).foldl (· + ·) zero

/-- Walks along the weights and takes each one that counts off the remainder. The result is the index
at which nothing remains, and otherwise the last index that counts. `position` is the index of the next
weight and `last` the last index that counted. -/
def walk (remainder : W) (position last : Nat) : List W → Nat
  | [] => last
  | w :: rest =>
    if counts w then
      if remainder - w ≤ zero then position
      else walk (remainder - w) (position + 1) position rest
    else walk remainder (position + 1) last rest

/-- The index that a draw from the half-open unit interval selects. -/
def select (weights : List W) (draw : W) : Nat := walk (draw * total weights) 0 0 weights

/-- Whether the weights admit a proportional draw. -/
def isProportional (weights : List W) : Bool :=
  isFinite (total weights) && !decide (total weights ≤ zero)

end Weight

/-- The index of an item, given the weights of all items. Nothing is drawn if there are none. -/
def Generator.weighted (weights : List Number) (g : Generator) : Option Nat × Generator :=
  if weights.isEmpty then (none, g)
  else if Weight.isProportional weights then (some (Weight.select weights g.unit.1), g.unit.2)
  else
    let (i, g) := g.index (UInt64.ofNat weights.length)
    (some i.toNat, g)

end GraphGrammar
