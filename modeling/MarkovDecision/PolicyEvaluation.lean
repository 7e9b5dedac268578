import MarkovDecision.Linear.System
import MarkovDecision.Objective
import MarkovDecision.RewardProcess

namespace MarkovDecision

variable {α : Type} [Scalar α]

def identityEntry (i j : Nat) : α := if i == j then Scalar.one else Scalar.zero

namespace RewardProcess

def equations (process : RewardProcess α) (discount : α) : List (Equation α) :=
  let n := process.reward.size
  (List.range n).map fun i =>
    let row := process.transition.getD i #[]
    { coefficients := (List.range n).map fun j =>
        identityEntry i j - discount * row.getD j Scalar.zero
      rhs := process.reward.getD i Scalar.zero }

def value (process : RewardProcess α) (discount : α) : Outcome α (Array α) :=
  match LinearSystem.solve (process.equations discount) with
  | some v => .ok v.toArray
  | none => .error .singular

end RewardProcess

namespace SparseRewardProcess

def equations (process : SparseRewardProcess α) (discount : α) : List (Equation α) :=
  let n := process.reward.size
  process.transition.rows.zipIdx.map fun (row, i) =>
    { coefficients := (List.range n).map fun j => identityEntry i j - discount * row.get j
      rhs := process.reward.getD i Scalar.zero }

-- Without a unique solution the dense form fails, and this one answers with a NaN for every state.
def value (process : SparseRewardProcess α) (discount : α) : Array α :=
  match LinearSystem.solveSparse (process.equations discount) with
  | some v => v.toArray
  | none => process.reward.map fun _ => Scalar.zero / Scalar.zero

end SparseRewardProcess

def evaluatePolicy (m : Model α) (goal : Goal α) (given : PolicyData α) (sparse : Bool) :
    Outcome α (Array α) :=
  match goal with
  | .bare _ => .error .invalidInput
  | .objective o =>
    if sparse then do
      return (← SparseRewardProcess.ofPolicy m given).value o.factor
    else do
      (← RewardProcess.ofPolicy m given).value o.factor

end MarkovDecision
