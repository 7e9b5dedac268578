import MarkovDecision.Journal.Basic
import MarkovDecision.Policy.Basic

namespace MarkovDecision

-- Over finitely many stages the last row is the terminal value.
inductive ValueFunction (α : Type) where
  | stationary (v : Array α)
  | staged (rows : Array (Array α))

structure ValueIterationResult (α : Type) where
  value : ValueFunction α
  policy : Option (Policy α)
  iterations : Nat
  -- none where the answer is exact by construction
  residual : Option α
  converged : Bool
  trace : Trace α

end MarkovDecision
