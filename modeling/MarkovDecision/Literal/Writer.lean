import MarkovDecision.Literal.Text

namespace MarkovDecision

namespace Literal

namespace Writer

def unit (n : Nat) : List Char := '\\' :: 'u' :: hexDigits 4 n

def isPlain (c : Char) : Bool := 0x20 ≤ c.toNat && c.toNat < 0x7f

def quotedChar (c : Char) : List Char :=
  if c == '"' || c == '\\' then ['\\', c]
  else if isPlain c then [c]
  else if c.toNat < 0x10000 then unit c.toNat
  else
    let above := c.toNat - 0x10000
    unit (0xd800 + above / 0x400) ++ unit (0xdc00 + above % 0x400)

def quoted (s : String) : String := String.ofList ('"' :: s.toList.flatMap quotedChar ++ ['"'])

def real (x : Float) : String :=
  match BinaryForm.ofFloat x with
  | .nan => "NaN"
  | .infinite negative => if negative then "-Infinity" else "Infinity"
  | .finite _ _ _ => Shortest.text x

end Writer

mutual

def written : Literal → String
  | .null => "null"
  | .bool b => if b then "true" else "false"
  | .int n => intText n
  | .real x => Writer.real x
  | .text s => Writer.quoted s
  | .list items => "[" ++ ",".intercalate (writtenItems items) ++ "]"
  | .record fields => "\x7b" ++ ",".intercalate (writtenFields fields) ++ "\x7d"

def writtenItems : List Literal → List String
  | [] => []
  | l :: rest => l.written :: writtenItems rest

def writtenFields : List (String × Literal) → List String
  | [] => []
  | (name, l) :: rest => (Writer.quoted name ++ ":" ++ l.written) :: writtenFields rest

end

end Literal

end MarkovDecision
