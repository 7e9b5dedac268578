import MarkovDecision.Literal.Numeral
import MarkovDecision.Tensor

namespace MarkovDecision

namespace Literal

mutual

def tensor? : Literal → Option (Tensor Literal)
  | .list items => match tensorItems? items with
    | none => none
    | some [] => some ⟨[0], #[]⟩
    | some (t :: rest) =>
      if rest.all (fun u => u.shape == t.shape) then
        some ⟨(rest.length + 1) :: t.shape, (t :: rest).foldl (fun cells u => cells ++ u.cells) #[]⟩
      else none
  | l => some (Tensor.scalar l)

def tensorItems? : List Literal → Option (List (Tensor Literal))
  | [] => some []
  | l :: rest => match l.tensor?, tensorItems? rest with
    | some t, some ts => some (t :: ts)
    | _, _ => none

end

def leastWord : Int := -9223372036854775808

def inWord (n : Int) : Bool := leastWord ≤ n && n < -leastWord

end Literal

def Quantity.word? {α : Type} [Scalar α] : Quantity α → Option Int
  | .whole n => if Literal.inWord n then some n else none
  | .real x => (Scalar.truncate x).bind fun n => if Literal.inWord n then some n else none

namespace Literal

def cellInt? : Literal → Option Int
  | .bool b => some (if b then 1 else 0)
  | .int n => (Quantity.whole n : Quantity Float).word?
  | .real x => (Quantity.real x).word?
  | .text s => (Numeral.whole? s).bind fun n => if inWord n then some n else none
  | _ => none

def cellReal? : Literal → Option Float
  | .null => some (0.0 / 0.0)
  | .bool b => some (if b then 1 else 0)
  | .int n => (Quantity.whole n).value?
  | .real x => some x
  | .text s => Numeral.real? s
  | _ => none

def ints? (l : Literal) : Option (Tensor Int) := l.tensor?.bind (·.mapM? cellInt?)

def reals? (l : Literal) : Option (Tensor Float) := l.tensor?.bind (·.mapM? cellReal?)

def shape? (l : Literal) : Option (List Nat) := do
  let axes ← match l with
    | .list items => items.mapM whole?
    | l => (whole? l).map fun n => [n]
  guard (axes.all fun n => 0 ≤ n)
  let shape := axes.map Int.toNat
  guard (Tensor.fits Tensor.usualCapacity shape)
  return shape

def wordOfReal (x : Float) : Int :=
  match truncateFloat x with
  | some n => if inWord n then n else leastWord
  | none => leastWord

-- An array without a stated kind of cell takes the widest kind among its cells: text if there is
-- one, else real if there is one, else whole. The whole numbers are then read off that array.
def widenedInts? (t : Tensor Literal) : Option (Tensor Int) :=
  let hasText := t.cells.any fun | .text _ => true | _ => false
  let hasReal := t.cells.any fun | .real _ => true | _ => false
  if hasText then
    t.mapM? fun
      | .text s => cellInt? (.text s)
      | .int n => if inWord n then some n else none
      | _ => none
  else if hasReal then
    t.mapM? fun
      | .null => none
      | l => (cellReal? l).map wordOfReal
  else t.mapM? cellInt?

end Literal

end MarkovDecision
