import MarkovDecision.Number.Power

namespace MarkovDecision

inductive BinaryForm where
  | nan
  | infinite (negative : Bool)
  | finite (negative : Bool) (significand : Nat) (exponent : Int)

namespace BinaryForm

-- Bit 63 is the sign, bits 52 to 62 the biased exponent, the rest the fraction. A zero exponent
-- marks subnormal numbers, which carry no hidden bit.
def ofFloat (x : Float) : BinaryForm :=
  let bits := x.toBits.toNat
  let negative := bits / pow2 63 == 1
  let exponent : Nat := bits / pow2 52 % 2048
  let fraction : Nat := bits % pow2 52
  if exponent == 2047 then
    if fraction == 0 then .infinite negative else .nan
  else if exponent == 0 then .finite negative fraction (-1074)
  else .finite negative (pow2 52 + fraction) ((exponent : Int) - 1075)

def ratio (significand : Nat) (exponent : Int) : Nat × Nat :=
  if 0 ≤ exponent then (significand * pow2 exponent.toNat, 1)
  else (significand, pow2 (-exponent).toNat)

end BinaryForm

end MarkovDecision
