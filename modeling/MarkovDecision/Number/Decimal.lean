import MarkovDecision.Number.Binary

namespace MarkovDecision

namespace Decimal

def roundDiv (n d : Nat) : Nat :=
  let q := n / d
  let r := n % d
  if 2 * r < d then q
  else if d < 2 * r then q + 1
  else if q % 2 == 0 then q else q + 1

def digits (n : Nat) : List Char := Nat.toDigits 10 n

def padded (width n : Nat) : List Char :=
  let ds := digits n
  List.replicate (width - ds.length) '0' ++ ds

-- The exponent e with 10^e ≤ n / d < 10^(e+1), for positive n and d. The digit counts leave only
-- two candidates.
def magnitude (n d : Nat) : Int :=
  let e : Int := (digits n).length - (digits d).length
  let above := if 0 ≤ e then d * pow10 e.toNat ≤ n else d ≤ n * pow10 (-e).toNat
  if above then e else e - 1

def scaled (n d : Nat) (k : Int) : Nat × Nat :=
  if 0 ≤ k then (n * pow10 k.toNat, d) else (n, d * pow10 (-k).toNat)

def fixedDigits (places n d : Nat) : List Char :=
  let k := roundDiv (n * pow10 places) d
  let whole := digits (k / pow10 places)
  if places == 0 then whole else whole ++ '.' :: padded places (k % pow10 places)

def exponentDigits (e : Int) : List Char :=
  (if e < 0 then '-' else '+') :: padded 2 e.natAbs

def scientificDigits (places n d : Nat) : List Char :=
  let e := if n == 0 then 0 else magnitude n d
  let (n', d') := scaled n d (places - e)
  let k := roundDiv n' d'
  -- rounding may carry into one more digit
  let (k, e) := if k == pow10 (places + 1) then (pow10 places, e + 1) else (k, e)
  let whole := digits (k / pow10 places)
  let mantissa := if places == 0 then whole else whole ++ '.' :: padded places (k % pow10 places)
  mantissa ++ 'e' :: exponentDigits e

def signed (negative : Bool) (ds : List Char) : String :=
  String.ofList (if negative then '-' :: ds else ds)

def nanText : String := "nan"

def infiniteText (negative : Bool) : String := if negative then "-inf" else "inf"

def fixed (places : Nat) (x : Float) : String :=
  match BinaryForm.ofFloat x with
  | .nan => nanText
  | .infinite negative => infiniteText negative
  | .finite negative m e =>
    let (n, d) := BinaryForm.ratio m e
    signed negative (fixedDigits places n d)

def scientific (places : Nat) (x : Float) : String :=
  match BinaryForm.ofFloat x with
  | .nan => nanText
  | .infinite negative => infiniteText negative
  | .finite negative m e =>
    let (n, d) := BinaryForm.ratio m e
    signed negative (scientificDigits places n d)

-- Numbers in result tables: positional below one, scientific from about one on, and no sign on
-- a text that shows only zeros.
def tabular (places : Nat) (x : Float) : String :=
  let text := if x.isNaN || x.isInf || !(x.abs < 0.9999999) then scientific places x else fixed places x
  let rest := text.toList.drop 1
  if text.toList.head? == some '-' && rest.all (fun c => c == '0' || c == '.') then String.ofList rest
  else text

end Decimal

end MarkovDecision
