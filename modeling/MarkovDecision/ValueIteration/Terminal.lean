import MarkovDecision.Model.Basic

namespace MarkovDecision

variable {α : Type}

inductive TerminalValue (α : Type) where
  | zero
  -- data that may have no reading as numbers
  | array (t : Outcome α (Tensor α))
  | function (f : Nat → Outcome α α)

namespace TerminalValue

def ofVector (v : Array α) : TerminalValue α := .array (.ok (.ofVector v))

def vector [Scalar α] (w : TerminalValue α) (states : Nat) : Outcome α (Array α) :=
  match w with
  | .zero => .ok (Array.replicate states Scalar.zero)
  | .array t => do
    let t ← t
    if t.shape != [states] then throw (.terminalShape t.shape states)
    return t.cells
  | .function f => do
    return (← (List.range states).mapM f).toArray

def affine (a b : Quantity Float) : TerminalValue Float :=
  .function fun s => match a, b with
    | .whole m, .whole n => Outcome.ofOption (Quantity.whole (m * s + n)).value?
    | .whole m, .real y => do
      return (← Outcome.ofOption (Quantity.whole (m * s)).value?) + y
    | .real x, b => do
      return x * Scalar.ofInt s + (← Outcome.ofOption b.value?)

def read (l : Literal) : TerminalValue Float :=
  match l, l.field? "affine" with
  | .null, _ => .zero
  | _, some (.list [a, b]) =>
    match a.withSpecials.quantity?, b.withSpecials.quantity? with
    | some a, some b => affine a b
    | _, _ => .function fun _ => .error .invalidInput
  | l, _ => .array (Outcome.ofOption l.reals?)

end TerminalValue

end MarkovDecision
