import MarkovDecision.Number.Decimal

namespace MarkovDecision

namespace Shortest

-- The reals that round to m * 2^e, as numerators over one common denominator. The gap below a
-- power of two is half the gap above it. The ends belong to the interval when m is even.
structure RoundingInterval where
  lower : Nat
  value : Nat
  upper : Nat
  denominator : Nat
  closed : Bool

def RoundingInterval.of (m : Nat) (e : Int) : RoundingInterval :=
  let lowGap := if m == pow2 52 && -1074 < e then 1 else 2
  let (scale, den) := BinaryForm.ratio 1 (e - 2)
  { lower := (4 * m - lowGap) * scale
    value := 4 * m * scale
    upper := (4 * m + 2) * scale
    denominator := den
    closed := m % 2 == 0 }

def RoundingInterval.holds (i : RoundingInterval) (c : Nat) (k : Int) : Bool :=
  -- c / 10^k compared with x / den through c * den * 10^-k and x
  let (n, d) := Decimal.scaled (c * i.denominator) 1 (-k)
  if i.closed then i.lower * d ≤ n && n ≤ i.upper * d
  else i.lower * d < n && n < i.upper * d

def onGrid (i : RoundingInterval) (exponent : Int) (count : Nat) : Option Nat :=
  let k : Int := (count : Int) - 1 - exponent
  let (n, d) := Decimal.scaled i.value i.denominator k
  let low := n / d
  let high := low + 1
  match i.holds low k, i.holds high k with
  | false, false => none
  | true, false => some low
  | false, true => some high
  | true, true =>
    let below := n - low * d
    let above := high * d - n
    if below < above then some low
    else if above < below then some high
    else if low % 2 == 0 then some low else some high

def search (i : RoundingInterval) (exponent : Int) : Nat → Nat → Nat × Nat
  | 0, count => ((onGrid i exponent count).getD 0, count)
  | fuel + 1, count =>
    match onGrid i exponent count with
    | some c => (c, count)
    | none => search i exponent fuel (count + 1)

def decimal (m : Nat) (e : Int) : List Char × Int :=
  let i := RoundingInterval.of m e
  let exponent := Decimal.magnitude i.value i.denominator
  let (c, count) := search i exponent 16 1
  let ds := Decimal.digits c
  -- a neighbour may be the next power of ten
  let exponent := exponent + ((ds.length : Int) - count)
  let trimmed := (ds.reverse.dropWhile (· == '0')).reverse
  (trimmed, exponent)

-- Positional notation for exponents from -4 to 15, always with a fractional part; otherwise
-- scientific notation without one when a single digit suffices.
def layout (ds : List Char) (exponent : Int) : List Char :=
  if -4 ≤ exponent && exponent < 16 then
    if exponent < 0 then
      '0' :: '.' :: (List.replicate (-exponent - 1).toNat '0' ++ ds)
    else
      let whole := (exponent + 1).toNat
      if ds.length ≤ whole then
        ds ++ List.replicate (whole - ds.length) '0' ++ ['.', '0']
      else ds.take whole ++ '.' :: ds.drop whole
  else
    let mantissa := match ds with
      | [] => ['0']
      | d :: [] => [d]
      | d :: rest => d :: '.' :: rest
    mantissa ++ 'e' :: Decimal.exponentDigits exponent

def text (x : Float) : String :=
  match BinaryForm.ofFloat x with
  | .nan => Decimal.nanText
  | .infinite negative => Decimal.infiniteText negative
  | .finite negative 0 _ => Decimal.signed negative ['0', '.', '0']
  | .finite negative m e =>
    let (ds, exponent) := decimal m e
    Decimal.signed negative (layout ds exponent)

end Shortest

end MarkovDecision
