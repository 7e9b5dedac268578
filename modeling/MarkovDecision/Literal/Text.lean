import MarkovDecision.Literal.Basic
import MarkovDecision.Literal.Printable
import MarkovDecision.Number.Shortest

namespace MarkovDecision

namespace Literal

def intText (n : Int) : String :=
  let ds := Decimal.digits n.natAbs
  String.ofList (if n < 0 then '-' :: ds else ds)

def hexDigits (width n : Nat) : List Char :=
  let ds := Nat.toDigits 16 n
  List.replicate (width - ds.length) '0' ++ ds

def escapedChar (quote : Char) (c : Char) : List Char :=
  if c == '\\' then ['\\', '\\']
  else if c == quote then ['\\', c]
  else if c == '\n' then ['\\', 'n']
  else if c == '\r' then ['\\', 'r']
  else if c == '\t' then ['\\', 't']
  else if isHidden c then
    if c.toNat < 0x100 then '\\' :: 'x' :: hexDigits 2 c.toNat
    else if c.toNat < 0x10000 then '\\' :: 'u' :: hexDigits 4 c.toNat
    else '\\' :: 'U' :: hexDigits 8 c.toNat
  else [c]

-- Single quotes, unless the text holds one and no double quote.
def quotedText (s : String) : String :=
  let cs := s.toList
  let quote := if cs.contains '\'' && !cs.contains '"' then '"' else '\''
  String.ofList (quote :: cs.flatMap (escapedChar quote) ++ [quote])

mutual

def quoted : Literal → String
  | .null => "None"
  | .bool b => if b then "True" else "False"
  | .int n => intText n
  | .real x => Shortest.text x
  | .text s => quotedText s
  | .list items => "[" ++ ", ".intercalate (quotedItems items) ++ "]"
  | .record fields => "\x7b" ++ ", ".intercalate (quotedFields fields) ++ "\x7d"

def quotedItems : List Literal → List String
  | [] => []
  | l :: rest => l.quoted :: quotedItems rest

def quotedFields : List (String × Literal) → List String
  | [] => []
  | (name, l) :: rest => (quotedText name ++ ": " ++ l.quoted) :: quotedFields rest

end

def display : Literal → String
  | .text s => s
  | l => l.quoted

end Literal

namespace Quantity

def text : Quantity Float → String
  | .whole n => Literal.intText n
  | .real x => Shortest.text x

def literal : Quantity Float → Literal
  | .whole n => .int n
  | .real x => .real x

end Quantity

def shapeText (shape : List Nat) : String :=
  match shape with
  | [n] => "(" ++ Literal.intText n ++ ",)"
  | _ => "(" ++ ", ".intercalate (shape.map fun (n : Nat) => Literal.intText n) ++ ")"

end MarkovDecision
