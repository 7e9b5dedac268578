import MarkovDecision.Literal.Reader

namespace MarkovDecision

namespace Literal

namespace Numeral

-- The zeros of the decimal digits of all scripts, ascending. The other nine follow each of them.
def digitZeros : List Nat :=
  [0x30, 0x660, 0x6f0, 0x7c0, 0x966, 0x9e6, 0xa66, 0xae6, 0xb66, 0xbe6, 0xc66, 0xce6, 0xd66, 0xde6,
   0xe50, 0xed0, 0xf20, 0x1040, 0x1090, 0x17e0, 0x1810, 0x1946, 0x19d0, 0x1a80, 0x1a90, 0x1b50,
   0x1bb0, 0x1c40, 0x1c50, 0xa620, 0xa8d0, 0xa900, 0xa9d0, 0xa9f0, 0xaa50, 0xabf0, 0xff10, 0x104a0,
   0x10d30, 0x11066, 0x110f0, 0x11136, 0x111d0, 0x112f0, 0x11450, 0x114d0, 0x11650, 0x116c0,
   0x11730, 0x118e0, 0x11950, 0x11c50, 0x11d50, 0x11da0, 0x11f50, 0x16a60, 0x16ac0, 0x16b50,
   0x1d7ce, 0x1d7d8, 0x1d7e2, 0x1d7ec, 0x1d7f6, 0x1e140, 0x1e2f0, 0x1e4f0, 0x1e950, 0x1fbf0]

def blankRanges : List (Nat × Nat) :=
  [(0x9, 0xd), (0x20, 0x20), (0x85, 0x85), (0xa0, 0xa0), (0x1680, 0x1680), (0x2000, 0x200a),
   (0x2028, 0x2029), (0x202f, 0x202f), (0x205f, 0x205f), (0x3000, 0x3000)]

def isBlank (c : Char) : Bool :=
  blankRanges.any fun (first, last) => first ≤ c.toNat && c.toNat ≤ last

def plainDigit (c : Char) : Char :=
  match digitZeros.find? fun start => start ≤ c.toNat && c.toNat < start + 10 with
  | some start => Char.ofNat ('0'.toNat + (c.toNat - start))
  | none => c

def trimmed (cs : List Char) : List Char :=
  ((cs.dropWhile isBlank).reverse.dropWhile isBlank).reverse

-- A low line needs a digit on either side.
def joinedDigits? (afterDigit : Bool) : List Char → Option (List Char)
  | [] => some []
  | '_' :: c :: rest =>
    if afterDigit && c.isDigit then (joinedDigits? true rest).map (c :: ·) else none
  | ['_'] => none
  | c :: rest => (joinedDigits? c.isDigit rest).map (c :: ·)

def signOf : List Char → Bool × List Char
  | '-' :: rest => (true, rest)
  | '+' :: rest => (false, rest)
  | cs => (false, cs)

def parts? (s : String) : Option (Bool × List Char) :=
  (joinedDigits? false ((trimmed s.toList).map plainDigit)).map signOf

def signedInt (negative : Bool) (n : Nat) : Int := if negative then -(n : Int) else n

def digits? (cs : List Char) : Option Nat :=
  if cs.isEmpty || !cs.all Char.isDigit then none else some (Reader.digitsValue cs)

def whole? (s : String) : Option Int := do
  let (negative, body) ← parts? s
  let n ← digits? body
  return signedInt negative n

def exponent? : List Char → Option Int
  | [] => some 0
  | mark :: rest =>
    if mark == 'e' || mark == 'E' then
      let (negative, ds) := signOf rest
      (digits? ds).map (signedInt negative)
    else none

def word? (cs : List Char) : Option Float :=
  match String.ofList (cs.map Char.toLower) with
  | "inf" | "infinity" => some (1.0 / 0.0)
  | "nan" => some (0.0 / 0.0)
  | _ => none

def magnitude? (cs : List Char) : Option Float :=
  match word? cs with
  | some x => some x
  | none =>
    let (whole, fraction, rest) := Reader.mantissa cs
    if whole.isEmpty && fraction.isEmpty then none
    else (exponent? rest).map fun e =>
      Reader.decimalFloat (Reader.digitsValue (whole ++ fraction)) (e - fraction.length)

def real? (s : String) : Option Float := do
  let (negative, body) ← parts? s
  let x ← magnitude? body
  return if negative then -x else x

end Numeral

end Literal

end MarkovDecision
