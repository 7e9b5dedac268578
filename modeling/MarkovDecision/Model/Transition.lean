import MarkovDecision.Failure
import MarkovDecision.Literal.Tensor

namespace MarkovDecision

inductive StateLabel where
  | index (i : Int)
  | other (l : Literal)

namespace StateLabel

def ofLiteral : Literal → StateLabel
  | .int n => .index n
  | l => .other l

def literal : StateLabel → Literal
  | .index i => .int i
  | .other l => l

def position {α : Type} : StateLabel → Outcome α Int
  | .index i => .ok i
  | .other _ => .error .index

def names (label : StateLabel) (s : Int) : Bool := label.literal.equalsInt s

def comparable (label : StateLabel) : Bool :=
  match label with
  | .other (.list _) | .other (.record _) => false
  | _ => true

def same (a b : StateLabel) : Bool := a.literal.sameLabel b.literal

-- The label as a column index, where reals lose their fraction. An array of columns holds words only.
def column? (label : StateLabel) : Option Int := label.literal.cellInt?

def place? : StateLabel → Option Int
  | .index i => some i
  | .other l => l.cellInt?

end StateLabel

structure Transition (α : Type) where
  next : StateLabel
  probability : Quantity α
  reward : Quantity α

end MarkovDecision
