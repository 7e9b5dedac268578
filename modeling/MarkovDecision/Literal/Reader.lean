import MarkovDecision.Literal.Basic

namespace MarkovDecision

namespace Literal

namespace Reader

def isBlank (c : Char) : Bool := c == ' ' || c == '\n' || c == '\t' || c == '\r'

def skipBlanks (cs : List Char) : List Char := cs.dropWhile isBlank

def digitsValue (ds : List Char) : Nat :=
  ds.foldl (fun n c => 10 * n + (c.toNat - '0'.toNat)) 0

def isNumberChar (c : Char) : Bool :=
  c.isDigit || c == '-' || c == '+' || c == '.' || c == 'e' || c == 'E'

def mantissa (cs : List Char) : List Char × List Char × List Char :=
  let whole := cs.takeWhile Char.isDigit
  match cs.dropWhile Char.isDigit with
  | '.' :: rest => (whole, rest.takeWhile Char.isDigit, rest.dropWhile Char.isDigit)
  | rest => (whole, [], rest)

def exponentOf : List Char → Int
  | _ :: '-' :: ds => -(digitsValue ds : Int)
  | _ :: '+' :: ds => digitsValue ds
  | _ :: ds => digitsValue ds
  | [] => 0

def decimalFloat (n : Nat) (e : Int) : Float :=
  if 0 ≤ e then Float.ofScientific n false e.toNat else Float.ofScientific n true (-e).toNat

def number? (cs : List Char) : Option Literal :=
  let negative := cs.head? == some '-'
  let body := if negative then cs.drop 1 else cs
  let (whole, fraction, rest) := mantissa body
  if whole.isEmpty then none
  else if body.all Char.isDigit then
    let n : Int := digitsValue whole
    some (.int (if negative then -n else n))
  else
    let x := decimalFloat (digitsValue (whole ++ fraction)) (exponentOf rest - fraction.length)
    some (.real (if negative then -x else x))

def hexValue (c : Char) : Nat :=
  if c.isDigit then c.toNat - '0'.toNat
  else if 'a' ≤ c && c ≤ 'f' then c.toNat - 'a'.toNat + 10
  else if 'A' ≤ c && c ≤ 'F' then c.toNat - 'A'.toNat + 10
  else 0

def unit (a b c d : Char) : Nat :=
  ((hexValue a * 16 + hexValue b) * 16 + hexValue c) * 16 + hexValue d

-- The characters of quoted text and what follows the closing quote. Characters beyond the basic
-- plane are written as two units.
def quotedBody : List Char → List Char → Option (List Char × List Char)
  | [], _ => none
  | '"' :: rest, acc => some (acc.reverse, rest)
  | '\\' :: 'u' :: a :: b :: c :: d :: '\\' :: 'u' :: e :: f :: g :: h :: rest, acc =>
    let high := unit a b c d
    let low := unit e f g h
    if 0xd800 ≤ high && high < 0xdc00 && 0xdc00 ≤ low && low < 0xe000 then
      quotedBody rest (Char.ofNat (0x10000 + (high - 0xd800) * 0x400 + (low - 0xdc00)) :: acc)
    else quotedBody ('\\' :: 'u' :: e :: f :: g :: h :: rest) (Char.ofNat high :: acc)
  | '\\' :: 'u' :: a :: b :: c :: d :: rest, acc => quotedBody rest (Char.ofNat (unit a b c d) :: acc)
  | '\\' :: 'n' :: rest, acc => quotedBody rest ('\n' :: acc)
  | '\\' :: 't' :: rest, acc => quotedBody rest ('\t' :: acc)
  | '\\' :: 'r' :: rest, acc => quotedBody rest ('\r' :: acc)
  | '\\' :: 'b' :: rest, acc => quotedBody rest (Char.ofNat 8 :: acc)
  | '\\' :: 'f' :: rest, acc => quotedBody rest (Char.ofNat 12 :: acc)
  | '\\' :: c :: rest, acc => quotedBody rest (c :: acc)
  | c :: rest, acc => quotedBody rest (c :: acc)
  termination_by cs => cs.length

mutual

def value (fuel : Nat) (cs : List Char) : Option (Literal × List Char) :=
  match fuel with
  | 0 => none
  | fuel + 1 =>
    match skipBlanks cs with
    | 'n' :: 'u' :: 'l' :: 'l' :: rest => some (.null, rest)
    | 't' :: 'r' :: 'u' :: 'e' :: rest => some (.bool true, rest)
    | 'f' :: 'a' :: 'l' :: 's' :: 'e' :: rest => some (.bool false, rest)
    | 'N' :: 'a' :: 'N' :: rest => some (.real (0.0 / 0.0), rest)
    | 'I' :: 'n' :: 'f' :: 'i' :: 'n' :: 'i' :: 't' :: 'y' :: rest => some (.real (1.0 / 0.0), rest)
    | '-' :: 'I' :: 'n' :: 'f' :: 'i' :: 'n' :: 'i' :: 't' :: 'y' :: rest =>
      some (.real (-1.0 / 0.0), rest)
    | '"' :: rest => (quotedBody rest []).map fun (s, rest) => (.text (String.ofList s), rest)
    | '[' :: rest =>
      match skipBlanks rest with
      | ']' :: rest => some (.list [], rest)
      | rest => (items fuel rest []).map fun (ls, rest) => (.list ls, rest)
    | '\x7b' :: rest =>
      match skipBlanks rest with
      | '\x7d' :: rest => some (.record [], rest)
      | rest => (fields fuel rest []).map fun (fs, rest) => (.record fs, rest)
    | cs =>
      match number? (cs.takeWhile isNumberChar) with
      | some l => some (l, cs.dropWhile isNumberChar)
      | none => none

def items (fuel : Nat) (cs : List Char) (acc : List Literal) : Option (List Literal × List Char) :=
  match fuel with
  | 0 => none
  | fuel + 1 =>
    match value fuel cs with
    | none => none
    | some (l, rest) =>
      match skipBlanks rest with
      | ',' :: rest => items fuel rest (l :: acc)
      | ']' :: rest => some ((l :: acc).reverse, rest)
      | _ => none

def fields (fuel : Nat) (cs : List Char) (acc : List (String × Literal)) :
    Option (List (String × Literal) × List Char) :=
  match fuel with
  | 0 => none
  | fuel + 1 =>
    match skipBlanks cs with
    | '"' :: rest =>
      match quotedBody rest [] with
      | none => none
      | some (name, rest) =>
        match skipBlanks rest with
        | ':' :: rest =>
          match value fuel rest with
          | none => none
          | some (l, rest) =>
            match skipBlanks rest with
            | ',' :: rest => fields fuel rest ((String.ofList name, l) :: acc)
            | '\x7d' :: rest => some (((String.ofList name, l) :: acc).reverse, rest)
            | _ => none
        | _ => none
    | _ => none

end

end Reader

def read? (s : String) : Option Literal :=
  let cs := s.toList
  match Reader.value (2 * cs.length + 2) cs with
  | some (l, rest) => if (Reader.skipBlanks rest).isEmpty then some l else none
  | none => none

end Literal

end MarkovDecision
