import MarkovDecision.Linear.Sparse

namespace MarkovDecision

variable {α : Type}

structure LinearProgram (α : Type) where
  objective : List α
  -- lower and upper bound of every variable
  bounds : List (Option α × Option α)
  constraints : List (SparseRow α × α)

-- The multiplier of a constraint is the derivative of the optimal objective with respect to its
-- bound.
inductive ProgramOutcome (α : Type) where
  | optimal (solution : List α) (value : α) (multipliers : List α)
  | infeasible
  | unbounded
  | undecided

abbrev ProgramSolver (α : Type) := LinearProgram α → ProgramOutcome α

inductive Direction where
  | minimise
  | maximise
  deriving DecidableEq

namespace Direction

def signed [Neg α] (d : Direction) (x : α) : α :=
  match d with
  | minimise => x
  | maximise => -x

def ofMaximise (b : Bool) : Direction := if b then maximise else minimise

end Direction

def LinearProgram.towards [Neg α] (p : LinearProgram α) (d : Direction) : LinearProgram α :=
  { p with objective := p.objective.map d.signed }

namespace ProgramOutcome

def map {β : Type} (f : α → β) : ProgramOutcome α → ProgramOutcome β
  | optimal solution value multipliers => optimal (solution.map f) (f value) (multipliers.map f)
  | infeasible => infeasible
  | unbounded => unbounded
  | undecided => undecided

def signed [Neg α] (d : Direction) : ProgramOutcome α → ProgramOutcome α
  | optimal solution value multipliers =>
    optimal solution (d.signed value) (multipliers.map d.signed)
  | outcome => outcome

end ProgramOutcome

end MarkovDecision
