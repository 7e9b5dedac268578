import MarkovDecision.LinearProgram.Basic

namespace MarkovDecision

inductive BackendCall (α : Type) where
  -- bounds that were not given are none
  | setUpVariables (count : Int) (lower upper : Option (List α))
  | addConstraints (matrix : SparseMatrix α) (bound : List α)
  | setObjective (coefficients : List α) (direction : Direction)
  | prepare
  | size
  | optimize
  | status
  | message
  | solution
  | multipliers
  | value

end MarkovDecision
