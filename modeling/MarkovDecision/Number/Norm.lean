import MarkovDecision.Number.Scalar

namespace MarkovDecision

variable {α : Type} [Scalar α]

def supNorm : List α → α
  | [] => Scalar.zero
  | x :: rest => (rest.map Scalar.abs).foldl Scalar.larger (Scalar.abs x)

def spanSeminorm : List α → α
  | [] => Scalar.zero
  | x :: rest => rest.foldl Scalar.larger x - rest.foldl Scalar.smaller x

end MarkovDecision
