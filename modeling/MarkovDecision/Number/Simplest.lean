import MarkovDecision.Number.Binary

namespace MarkovDecision

namespace Simplest

-- The rational with the smallest denominator between two positive ones, by continued fractions.
def between : Nat → Rat → Rat → Rat
  | 0, low, _ => low
  | fuel + 1, low, high =>
    let n : Rat := low.floor
    if n == low then n
    else if n + 1 ≤ high then n + 1
    else n + 1 / between fuel (1 / (high - n)) (1 / (low - n))

def rational? (x : Float) : Option Rat :=
  match BinaryForm.ofFloat x with
  | .finite negative m e =>
    let (n, d) := BinaryForm.ratio m e
    let q : Rat := mkRat n d
    some (if negative then -q else q)
  | _ => none

def tolerance : Rat := mkRat 1 1000000000000

def near (q : Rat) : Rat :=
  if q == 0 then 0
  else if 0 < q then between 100 (q * (1 - tolerance)) (q * (1 + tolerance))
  else -between 100 (-q * (1 - tolerance)) (-q * (1 + tolerance))

def ofFloat? (x : Float) : Option Rat := (rational? x).map near

-- The double next to a rational, to at least 63 significant bits before the last rounding.
def toFloat (q : Rat) : Float :=
  let n := q.num.natAbs
  if n == 0 then 0
  else
    let shift : Int := 64 + (q.den.log2 : Int) - n.log2
    let scaled := if 0 ≤ shift then n * pow2 shift.toNat / q.den else n / (q.den * pow2 (-shift).toNat)
    let x := Float.scaleB (Float.ofNat scaled) (-shift)
    if q.num < 0 then -x else x

end Simplest

end MarkovDecision
