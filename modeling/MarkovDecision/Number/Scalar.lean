import MarkovDecision.Number.Binary

namespace MarkovDecision

-- The arithmetic of values, probabilities and rewards. No law is part of the class: the order of
-- additions written in an algorithm is the order in which it computes. Comparisons are tests, all
-- of them false on a NaN.
class Scalar (α : Type) extends Add α, Sub α, Mul α, Div α, Neg α where
  ofInt : Int → α
  infinity : α
  lt : α → α → Bool
  le : α → α → Bool
  eq : α → α → Bool
  -- the integer part, rounded toward zero; none for infinities and NaN
  truncate : α → Option Int

namespace Scalar

variable {α : Type} [Scalar α]

def zero : α := ofInt 0

def one : α := ofInt 1

def negInfinity : α := -(infinity : α)

-- Ten to a negative power, correctly rounded: both operands of the quotient are exact.
def tenth (places : Nat) : α := ofInt 1 / ofInt (pow10 places)

def isNaN (x : α) : Bool := !eq x x

def abs (x : α) : α := if lt x zero then -x else x

-- The greater of two numbers; a NaN wins over everything.
def larger (x y : α) : α :=
  if isNaN x then x else if isNaN y then y else if lt x y then y else x

def smaller (x y : α) : α :=
  if isNaN x then x else if isNaN y then y else if lt y x then y else x

def sum (xs : List α) : α := xs.foldl (· + ·) zero

def isSurely (p : α) : Bool :=
  if eq p one then true
  else if isNaN p || eq (abs p) infinity then false
  else
    let difference := abs (one - p)
    le difference (abs (tenth 9 * one)) || le difference (abs (tenth 9 * p))

def isNearlyOne (p : α) : Bool :=
  if eq (abs p) infinity then false
  else le (abs (p - one)) (tenth 8 + tenth 5 * abs one)

end Scalar

def truncateFloat (x : Float) : Option Int :=
  match BinaryForm.ofFloat x with
  | .finite negative m e =>
    let (n, d) := BinaryForm.ratio m e
    let magnitude : Int := (n / d : Nat)
    some (if negative then -magnitude else magnitude)
  | _ => none

instance : Scalar Float where
  ofInt := Float.ofInt
  infinity := 1.0 / 0.0
  lt x y := x < y
  le x y := x <= y
  eq x y := x == y
  truncate := truncateFloat

end MarkovDecision
